import Mathlib.Data.List.Flatten
import Mathlib.Data.List.Induction
import Mathlib.Data.List.Pairwise
import Reflection.Proofs.Universe.Overrides
import Reflection.Snapshot.Basic

/-!
# Proofs/Snapshot/Listing — what becomes of a listing

    the line of a type  ──collect──▸  a listing  ──visible, overloads──▸  the methods of a name
                                                 ──build──────────────▸  the member of a name

A listing goes up the line, so what it names first is the most derived.  Both ways to make a table
of it keep the first of what is alike: a method unless one kept before covers it, and a field or
property unless there is one of its name, since nothing later can hide it.
-/

namespace Reflection

variable {β : Type}

/-! ## First occurrences -/

section EraseDups

variable {α : Type} [BEq α] [LawfulBEq α]

/-- What comes last is new, or has come before. -/
theorem eraseDups_concat (as : List α) (a : α) [Decidable (a ∈ as)] :
    (as ++ [a]).eraseDups = if a ∈ as then as.eraseDups else as.eraseDups ++ [a] := by
  rw [List.eraseDups_append, List.removeAll]
  split_ifs with h <;> simp [h, List.eraseDups_cons]

theorem nodup_eraseDups (as : List α) : as.eraseDups.Nodup := by
  induction as using List.reverseRecOn with
  | nil => exact List.nodup_nil
  | append_singleton as a ih =>
    classical
    rw [eraseDups_concat]
    split_ifs with h
    · exact ih
    · refine List.nodup_append.mpr ⟨ih, List.nodup_singleton _, fun x hx y hy hxy => h ?_⟩
      rw [← List.mem_singleton.mp hy, ← hxy]
      exact List.mem_eraseDups.mp hx

end EraseDups

/-! ## Listings -/

/-- What a search finds comes before everything else that it looks for. -/
theorem eq_or_of_find? {α : Type} {r : α → α → Prop} {l : List α} {p : α → Bool} {x y : α}
    (hl : l.Pairwise r) (hx : l.find? p = some x) (hy : y ∈ l) (hp : p y = true) :
    x = y ∨ r x y := by
  obtain ⟨-, before, after, rfl, hbefore⟩ := List.find?_eq_some_iff_append.mp hx
  rcases List.mem_append.mp hy with hy | hy
  · exact absurd hp (by simpa using hbefore y hy)
  · rcases List.mem_cons.mp hy with rfl | hy
    · exact .inl rfl
    · exact .inr ((List.pairwise_cons.mp (List.pairwise_append.mp hl).2.1).1 y hy)

namespace MemberFilter

variable {μ : Type} [Member μ] {declared : TypeRef → List μ} {f : MemberFilter} {t : TypeRef}
  {line : List TypeRef} {m : μ}

theorem mem_collect : m ∈ f.collect declared (t :: line) ↔
    m ∈ declared t ∧ f.takesOwn m = true ∨
      f.declaredOnly = false ∧ ∃ a ∈ line, m ∈ declared a ∧ f.takesInherited m = true := by
  rw [collect]
  cases f.declaredOnly <;> simp

/-- A listing names members in the order in which the line declares them. -/
theorem collect_sublist (f : MemberFilter) (declared : TypeRef → List μ) (line : List TypeRef) :
    (f.collect declared line).Sublist (line.flatMap declared) := by
  cases line with
  | nil => exact .slnil
  | cons t line =>
    rw [collect, List.flatMap_cons]
    refine .append List.filter_sublist ?_
    split
    · exact List.nil_sublist _
    · exact .flatMap_right line fun a _ => List.filter_sublist

theorem exists_of_mem_collect (h : m ∈ f.collect declared line) :
    ∃ a ∈ line, m ∈ declared a :=
  List.mem_flatMap.mp ((collect_sublist f declared line).subset h)

/-- **A listing is in the order of the line.** -/
theorem pairwise_collect {r : TypeRef → TypeRef → Prop} (hline : line.Pairwise r)
    (hdecl : ∀ a ∈ line, ∀ m ∈ declared a, Member.declaring m = a) :
    (f.collect declared line).Pairwise fun m n =>
      Member.declaring m = Member.declaring n ∨ r (Member.declaring m) (Member.declaring n) := by
  refine .sublist (collect_sublist f declared line) (List.pairwise_flatMap.mpr ⟨?_, ?_⟩)
  · intro a ha
    refine List.pairwise_of_forall_mem_list fun m hm n hn => .inl ?_
    rw [hdecl a ha m hm, hdecl a ha n hn]
  · refine hline.imp_of_mem fun {a b} ha hb hab m hm n hn => .inr ?_
    rwa [hdecl a ha m hm, hdecl b hb n hn]

theorem takesOwn_all (m : μ) : all.takesOwn m = true := by
  simp [takesOwn, selects, admits, admitsBinding, all, standard]

/-- The listing of everything takes every member of the line that derived types inherit. -/
theorem mem_collect_all {u : Universe β} {a : TypeRef} (ha : a ∈ u.ancestors t)
    (hm : m ∈ declared a) (hs : Member.isStatic m = false)
    (hv : Member.visibility m ≠ .ownType) : m ∈ all.collect declared (u.ancestors t) := by
  refine mem_collect.mpr ?_
  rcases Universe.mem_ancestors_iff.mp ha with rfl | ha
  · exact .inl ⟨hm, takesOwn_all m⟩
  · exact .inr ⟨rfl, a, ha, hm, by simp [takesInherited, hs, hv, takesOwn_all]⟩

end MemberFilter

/-! ## Methods -/

namespace MethodTable

variable {ms : List (Method β)} {m : Method β}

theorem visible_concat (ms : List (Method β)) (m : Method β) :
    visible (ms ++ [m]) =
      if (visible ms).any fun k => covers k m then visible ms else visible ms ++ [m] := by
  rw [visible, List.foldl_concat]
  rfl

theorem visible_sublist (ms : List (Method β)) : (visible ms).Sublist ms := by
  induction ms using List.reverseRecOn with
  | nil => exact .slnil
  | append_singleton ms m ih =>
    rw [visible_concat]
    split
    · exact ih.trans (List.sublist_append_left _ _)
    · exact ih.append (List.Sublist.refl _)

/-- **A method that is not kept is covered** by one that comes before it and is. -/
theorem exists_mem_visible {r : Method β → Method β → Prop} (hr : ms.Pairwise r) (hm : m ∈ ms) :
    ∃ k ∈ visible ms, k = m ∨ covers k m = true ∧ r k m := by
  induction ms using List.reverseRecOn with
  | nil => simp at hm
  | append_singleton ms n ih =>
    obtain ⟨hms, -, hlast⟩ := List.pairwise_append.mp hr
    rw [visible_concat]
    rcases List.mem_append.mp hm with hm | hm
    · obtain ⟨k, hk, hkm⟩ := ih hms hm
      refine ⟨k, ?_, hkm⟩
      split
      · exact hk
      · exact List.mem_append_left _ hk
    · obtain rfl := List.mem_singleton.mp hm
      split
      · next hany =>
        obtain ⟨k, hk, hcovers⟩ := List.any_eq_true.mp hany
        exact ⟨k, hk, .inr ⟨hcovers, hlast k ((visible_sublist ms).subset hk) m (by simp)⟩⟩
      · exact ⟨m, by simp, .inl rfl⟩

theorem lookup_cons_eq_ite {α : Type} (n name : String) (a : α) (groups : List (String × α)) :
    ((n, a) :: groups).lookup name = if name = n then some a else groups.lookup name := by
  by_cases h : name = n
  · simp [h]
  · rw [List.lookup_cons, beq_false_of_ne h, if_neg h]

theorem lookup_insert (m : Method β) (groups : List (String × List (Method β))) (name : String) :
    (insert m groups).lookup name = if name = m.name then
      some ((groups.lookup name).getD [] ++ [m]) else groups.lookup name := by
  induction groups with
  | nil => simp [insert, lookup_cons_eq_ite]
  | cons g groups ih =>
    rcases g with ⟨n, ms⟩
    rw [insert]
    split
    · next hn =>
      subst hn
      simp only [lookup_cons_eq_ite]
      split <;> rfl
    · next hn =>
      simp only [lookup_cons_eq_ite, ih]
      split
      · next h => rw [if_neg (h ▸ hn)]
      · rfl

/-- **The overloads of a name** are the methods of that name that are kept. -/
theorem overloads_build (ms : List (Method β)) (name : String) :
    (build ms).overloads name = (visible ms).filter fun m => m.name = name := by
  rw [build, overloads]
  generalize visible ms = kept
  induction kept using List.reverseRecOn with
  | nil => rfl
  | append_singleton kept m ih =>
    simp only [List.foldl_concat, lookup_insert, List.filter_append]
    by_cases h : name = m.name
    · subst h
      simpa using ih
    · simpa [h, Ne.symm h] using ih

end MethodTable

/-! ## Fields and properties -/

namespace MemberCollection

variable {u : Universe β} {a b : Accessor β} {as : List (Accessor β)}

/-- A member that hides none before it is kept if its name is new. -/
theorem insert_eq (h : ∀ b ∈ as, b.name = a.name → hides u a b = false) :
    insert u a as = if as.any fun b => b.name = a.name then as else as ++ [a] := by
  induction as with
  | nil => rfl
  | cons b as ih =>
    have ih := ih fun x hx => h x (List.mem_cons_of_mem _ hx)
    rw [insert]
    by_cases hb : b.name = a.name
    · simp [hb, h b List.mem_cons_self hb]
    · simp only [if_neg hb, ih, List.any_cons, decide_eq_false hb, Bool.false_or]
      split <;> simp

theorem build_concat (u : Universe β) (as : List (Accessor β)) (a : Accessor β) :
    (build u (as ++ [a])).members = insert u a (build u as).members := by
  rw [build, List.foldl_concat]
  rfl

theorem mem_of_mem_insert {x : Accessor β} (h : x ∈ insert u a as) : x = a ∨ x ∈ as := by
  induction as with
  | nil => exact .inl (List.mem_singleton.mp h)
  | cons b as ih =>
    rw [insert] at h
    split at h
    · split at h
      · exact (List.mem_cons.mp h).imp_right (List.mem_cons_of_mem _)
      · exact .inr h
    · rcases List.mem_cons.mp h with rfl | h
      · exact .inr List.mem_cons_self
      · exact (ih h).imp_right (List.mem_cons_of_mem _)

/-- A collection has nothing but what it is built of. -/
theorem mem_of_mem_build {x : Accessor β} (h : x ∈ (build u as).members) : x ∈ as := by
  induction as using List.reverseRecOn with
  | nil => exact h
  | append_singleton as a ih =>
    rw [build_concat] at h
    rcases mem_of_mem_insert h with rfl | h
    · simp
    · exact List.mem_append_left _ (ih h)

/-- **A name stands for the member that has it first**, if no later one hides an earlier one. -/
theorem get?_build (h : as.Pairwise fun b a => b.name = a.name → hides u a b = false)
    (name : String) : (build u as).get? name = as.find? fun a => a.name = name := by
  rw [get?]
  induction as using List.reverseRecOn with
  | nil => rfl
  | append_singleton as a ih =>
    obtain ⟨has, -, hlast⟩ := List.pairwise_append.mp h
    have ih := ih has
    rw [build_concat, insert_eq fun b hb => hlast b (mem_of_mem_build hb) a (by simp),
      List.find?_append, ← ih]
    split
    · next hany =>
      obtain ⟨b, hb, hba⟩ := List.any_eq_true.mp hany
      cases hfind : (build u as).members.find? fun x => x.name = name with
      | some x => rfl
      | none =>
        -- the name is another one, for the collection has a member of the name that comes again
        have hne : ¬ a.name = name := fun hname => by
          have := List.find?_eq_none.mp hfind b hb
          simp_all
        simp [hne]
    · rw [List.find?_append]

end MemberCollection

/-! ## Snapshots of a known type -/

namespace Universe

variable {u : Universe β} {s t a b : TypeRef} {m n : Method β} {p q : Property β} {f : MemberFilter}

/-- A member of a base hides none of a type below, since a base is no subtype. -/
theorem Reachable.hides_eq_false (hu : u.Reachable) {x y : Accessor β} (hk : u.Knows y.declaring)
    (h : x.declaring ∈ u.ancestors y.declaring) : MemberCollection.hides u x y = false := by
  rw [MemberCollection.hides]
  rcases mem_ancestors_iff.mp h with h | h
  · simp [h]
  · simp [hu.isSubtype_eq_false hk h]

/-- The methods of a listing are in the order of the line. -/
theorem Reachable.pairwise_methods (hu : u.Reachable) (hk : u.Knows t) (f : MemberFilter) :
    (Provider.reflector.methods u t f).Pairwise fun m n =>
      n.declaring ∈ u.ancestors m.declaring := by
  refine (MemberFilter.pairwise_collect (hu.pairwise_ancestors t) fun a ha m hm =>
    hu.declaring_of_mem_methods (hu.knows_of_mem_ancestors hk ha) hm).imp fun {m n} h => ?_
  rcases h with h | h
  · exact mem_ancestors_iff.mpr (.inl h.symm)
  · exact mem_ancestors_of_mem_bases h

/-- The properties of a listing are in the order of the line. -/
theorem Reachable.pairwise_properties (hu : u.Reachable) (hk : u.Knows t) (f : MemberFilter) :
    (Provider.reflector.properties u t f).Pairwise fun p q =>
      q.declaring ∈ u.ancestors p.declaring := by
  refine (MemberFilter.pairwise_collect (hu.pairwise_ancestors t) fun a ha p hp =>
    hu.declaring_of_mem_properties (hu.knows_of_mem_ancestors hk ha) hp).imp fun {p q} h => ?_
  rcases h with h | h
  · exact mem_ancestors_iff.mpr (.inl h.symm)
  · exact mem_ancestors_of_mem_bases h

/-- **A snapshot has, for a name, the property that the listing names first.** -/
theorem Reachable.get?_properties (hu : u.Reachable) (hk : u.Knows t) (f : MemberFilter)
    (name : String) :
    (Snapshot.build .reflector u t f).properties.get? name =
      ((Provider.reflector.properties u t f).find? fun p => p.name = name).map .property := by
  have hlist := (hu.pairwise_properties hk f).imp_of_mem
    (S := fun p q => p.name = q.name → MemberCollection.hides u (.property q) (.property p) = false)
    fun {p q} hp hq h _ => by
      have hp : p ∈ f.collect u.properties (u.ancestors t) := hp
      obtain ⟨a, ha, hpa⟩ := MemberFilter.exists_of_mem_collect hp
      have hka := hu.knows_of_mem_ancestors hk ha
      have hpd := hu.declaring_of_mem_properties hka hpa
      exact hu.hides_eq_false (show u.Knows p.declaring by rwa [hpd]) h
  rw [Snapshot.build, MemberCollection.get?_build (List.pairwise_map.mpr hlist), List.find?_map]
  rfl

end Universe

end Reflection
