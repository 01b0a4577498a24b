import Reflection.Proofs.Call.Settled

/-!
# Proofs/Call/Spread — trailing arguments one by one, or in an array

    fixed ++ xs        ──plan?──▸  ⟨bound, packed E xs⟩  ──place──▸  a new array of xs
    fixed ++ [array]   ──plan?──▸  ⟨bound, whole array⟩  ──place──▸  the array, of xs

What comes before the tail does not see how the trailing arguments are written.  An array over the
element type is a whole tail.  Items are packed, unless one stands alone and is itself a whole tail;
the search that tells whether it is one has an answer, since that for its being an item has one.
-/

namespace Reflection

variable {β : Type} {u : Universe β} {s t e : TypeRef} {v : Value}

namespace Universe

/-! ## Arrays as elements -/

/-- An array is no interface, and of none. -/
theorem not_conforms_array_of_isInterface (hu : u.Reachable) (ht : t.isInterface = true) :
    ¬ u.Conforms (.array s) t := by
  intro h
  rw [conforms_iff_reaches hu, reaches_iff_climbs (not_arrays_of_isInterface ht)] at h
  rcases h.of_array with rfl | rfl
  · simp [TypeRef.isInterface, TypeRef.hasKind] at ht
  · simp [TypeRef.isInterface, TypeRef.hasKind] at ht

/-- **Where an array is of a type, the search from its elements for that type ends.** -/
theorem Conforms.not_loops_of_array (hu : u.Reachable) (h : u.Conforms (.array s) t.core) :
    ¬ u.Loops s t := by
  intro hloops
  induction t generalizing s with
  | array t ih =>
    cases s with
    | array s =>
      have h : u.Conforms (.array (.array s)) (.array t) := h
      rw [conforms_iff_reaches hu, reaches_array_iff hu] at h
      rcases h with rfl | ⟨-, h⟩
      · exact ih (.refl _) hloops.2
      · exact ih (((conforms_iff_reaches hu).mpr h).core hu) hloops.2
    | _ => simp [Loops, TypeRef.isInterface, TypeRef.hasKind] at hloops
  | declared d =>
    obtain ⟨-, hi, -⟩ := (loops_iff (by simp)).mp hloops
    exact not_conforms_array_of_isInterface hu hi h
  | _ =>
    obtain ⟨-, hi, -⟩ := (loops_iff (by simp)).mp hloops
    simp [TypeRef.isInterface, TypeRef.hasKind] at hi

/-- **Whether an item is itself a whole tail has an answer**, since its being an item has one. -/
theorem accepts?_array_ne_none (hu : u.Reachable) (h : u.accepts? e v = some true) :
    u.accepts? (.array e) v ≠ none := by
  obtain ⟨-, hacc⟩ := (accepts?_eq_some_iff hu).mp h
  rw [Ne, accepts?_eq_none_iff hu]
  rintro ⟨r, hr, hloops⟩
  rw [accepts_eq_isSubtype hr, isSubtype_iff_conforms hu] at hacc
  cases r with
  | array s => exact hacc.not_loops_of_array hu hloops.2
  | _ => simp [Loops, TypeRef.core, TypeRef.isInterface, TypeRef.hasKind] at hloops

end Universe

namespace Binding

variable {tail : Parameter} {ps : List Parameter} {fixed xs : List Value} {member : String}
  {cell : ℕ}

theorem settled_itemOf (h : u.accepts? e v = some true) : Settled u (itemOf (.array e)) v := by
  refine ⟨h, ?_⟩
  have hplain : ¬ ((itemOf (.array e)).isWriteBack = true ∧ v = .null) := fun hw => nomatch hw.1
  have hacc : u.accepts? (itemOf (.array e)).type v = some true := h
  rw [bindOne?_of_not_null hplain, hacc]
  rfl

/-- **Items are packed**, unless one stands alone and is a whole tail. -/
theorem bindTail?_items (hu : u.Reachable) (hxs : ∀ x ∈ xs, u.accepts? e x = some true)
    (hsole : ∀ v, xs = [v] → u.accepts? (.array e) v ≠ some true) :
    (bindTail? u (.array e) xs).run = some (.ok (.packed e xs)) := by
  have hitems : (packItems? u (.array e) xs).run = some (.ok (.packed e xs)) := by
    have hsettled : List.Forall₂ (Settled u) (.replicate xs.length (itemOf (.array e))) xs := by
      clear hsole
      induction xs with
      | nil => exact .nil
      | cons x xs ih =>
        obtain ⟨hx, hxs⟩ := List.forall_mem_cons.mp hxs
        exact .cons (settled_itemOf hx) (ih hxs)
    rw [packItems?_eq]
    exact run_bind_eq_ok.mpr ⟨xs, bindFixed?_of_settled hsettled, rfl⟩
  by_cases hlen : xs.length = 1
  · obtain ⟨v, rfl⟩ := List.length_eq_one_iff.mp hlen
    have hpass : passesWhole? u (.array e) v = some false := by
      by_cases hshape : v = .null ∨ ∃ r, v = .array r
      · rw [passesWhole?_eq hshape]
        have hanswer := Universe.accepts?_array_ne_none hu (hxs v (List.mem_singleton.mpr rfl))
        obtain ⟨c, hc⟩ := Option.ne_none_iff_exists'.mp hanswer
        have hc' := hsole v rfl
        rw [hc] at hc' ⊢
        simpa using hc'
      · exact passesWhole?_of_not hshape
    rw [bindTail?_single, hpass]
    exact hitems
  · rw [bindTail?_of_length_ne_one hlen]
    exact hitems

/-! ## Expanded and packed calls -/

/-- Whether a plan makes its fixed values followed by an array over a type with some items. -/
def EndsInArray (pl : Plan) (s : Store) (e : TypeRef) (xs : List Value) : Prop :=
  ∃ r : Ref, (pl.place s).1 = pl.fixed ++ [.array r] ∧ r.type = e ∧
    (pl.place s).2.items? (.array r) = some xs

theorem endsInArray_packed (bound : List Value) (s : Store) (e : TypeRef) (xs : List Value) :
    EndsInArray ⟨bound, some (.packed e xs)⟩ s e xs := by
  refine ⟨⟨e, s.cells.size⟩, rfl, rfl, ?_⟩
  change some ((s.allocate xs).2.contents s.cells.size) = some xs
  rw [Store.contents_allocate, if_pos rfl]

/-- Once the trailing arguments are bound, it is up to the fixed ones. -/
theorem plan?_append_of_bindTail? (htail : Parameter.variadicTail? ps = some tail)
    (hfixed : fixed.length = Parameter.fixedCount ps) {vs : List Value} {tl : Tail}
    (htl : (bindTail? u tail.type vs).run = some (.ok tl)) (member : String) :
    (plan? u member ps (fixed ++ vs)).run =
      (bindFixed? u (ps.take (Parameter.fixedCount ps)) fixed).run.map
        (·.map fun bound => ⟨bound, some tl⟩) := by
  rw [plan?_append htail hfixed, run_bind_eq]
  rcases (bindFixed? u (ps.take (Parameter.fixedCount ps)) fixed).run with _ | e | bound
  · rfl
  · rfl
  · exact run_bind_eq_ok.mpr ⟨tl, htl, rfl⟩

/-- **A variadic call does the same with its trailing arguments one by one or in an array**: one
binds exactly if the other does, with the same fixed values; and the tails are arrays over the
element type with the same items.  Where the fixed arguments do not bind, both fail alike. -/
theorem expanded_agrees_with_packed (hu : u.Reachable)
    (htail : Parameter.variadicTail? ps = some tail) (he : tail.type = .array e)
    (hfixed : fixed.length = Parameter.fixedCount ps)
    (hxs : ∀ x ∈ xs, u.accepts? e x = some true)
    (hsole : ∀ v, xs = [v] → u.accepts? tail.type v ≠ some true) (member : String) (cell : ℕ) :
    ((∃ pl, (plan? u member ps (fixed ++ xs)).run = some (.ok pl)) ↔
        ∃ pl, (plan? u member ps (fixed ++ [.array ⟨e, cell⟩])).run = some (.ok pl)) ∧
      ((plan? u member ps (fixed ++ xs)).run.map (·.map Plan.fixed) =
        (plan? u member ps (fixed ++ [.array ⟨e, cell⟩])).run.map (·.map Plan.fixed)) ∧
      ∀ s : Store, s.items? (.array ⟨e, cell⟩) = some xs →
        (∀ pl, (plan? u member ps (fixed ++ xs)).run = some (.ok pl) → EndsInArray pl s e xs) ∧
        ∀ pl, (plan? u member ps (fixed ++ [.array ⟨e, cell⟩])).run = some (.ok pl) →
          EndsInArray pl s e xs := by
  rw [he] at hsole
  have hitems := bindTail?_items hu hxs hsole
  have hwhole := bindTail?_whole (.inr ⟨_, rfl⟩) (Universe.accepts?_array hu e cell)
  rw [← he] at hitems hwhole
  rw [plan?_append_of_bindTail? htail hfixed hitems, plan?_append_of_bindTail? htail hfixed hwhole]
  rcases (bindFixed? u (ps.take (Parameter.fixedCount ps)) fixed).run with _ | e' | bound
  · exact ⟨by simp, rfl, fun s _ => ⟨by simp, by simp⟩⟩
  · exact ⟨by simp [Except.map], rfl, fun s _ => ⟨by simp [Except.map], by simp [Except.map]⟩⟩
  · refine ⟨iff_of_true ⟨_, rfl⟩ ⟨_, rfl⟩, rfl, fun s hs => ⟨?_, ?_⟩⟩
    · rintro pl ⟨⟩
      exact endsInArray_packed bound s e xs
    · rintro pl ⟨⟩
      exact ⟨⟨e, cell⟩, rfl, rfl, hs⟩

/-- An integer, and any number of objects. -/
def objectsAfterOne : List Parameter :=
  [⟨"n", .primitive .i32, .plain⟩, ⟨"rest", .array .object, .variadic⟩]

/-- An array of integers is an object, and no array of objects: as the only trailing argument it
becomes the one item of a new array. -/
theorem expanded_agrees_with_packed_array :
    EndsInArray ⟨[.i32 7], some (.packed .object [.array ⟨.primitive .i32, 0⟩])⟩
      ⟨#[[.i32 1, .i32 2], [.array ⟨.primitive .i32, 0⟩]], #[]⟩ .object
      [.array ⟨.primitive .i32, 0⟩] := by
  have tail : Parameter.variadicTail? objectsAfterOne =
    some ⟨"rest", .array .object, .variadic⟩ := rfl
  have one : [Value.i32 7].length = Parameter.fixedCount objectsAfterOne := rfl
  have item : ∀ x ∈ [Value.array ⟨.primitive .i32, 0⟩],
      (Universe.empty : Universe Unit).accepts? .object x = some true := by decide
  have sole : ∀ v, [Value.array ⟨.primitive .i32, 0⟩] = [v] →
      (Universe.empty : Universe Unit).accepts? (.array .object) v ≠ some true := by
    rintro v ⟨⟩
    decide
  obtain ⟨-, -, tails⟩ := expanded_agrees_with_packed .empty tail rfl one item sole "f" 1
  exact (tails _ rfl).1 _ rfl

end Binding

end Reflection
