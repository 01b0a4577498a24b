import Reflection.Proofs.Call.OwnMembers
import Reflection.Proofs.Snapshot.Redeclared
import Reflection.Proofs.Universe.Links

/-!
# Proofs/Snapshot/Overloads — one overload for each signature

    a listing, most derived first  ──visible──▸  the first method of each signature
                                   ──build────▸  the overloads of a name, in listing order

A table drops a method for two reasons: one kept before has its signature, or overrides it.  An
override has the signature of what it overrides, so along a line the two reasons are one
(`covers_iff`).  A listing names the most derived first; then what is kept of a signature is the
method below all others of it (`mem_visible_iff`), whatever overrides what.
-/

namespace Reflection

variable {β : Type}

/-! ## Signatures -/

/-- What overloads of one name are told apart by, with the name. -/
def Method.signature (m : Method β) : String × List (TypeRef × ParameterMode) :=
  (m.name, m.parameters.map Parameter.shape)

@[simp] theorem Method.sameSignature_iff {m n : Method β} :
    m.sameSignature n = true ↔ m.signature = n.signature := by
  simp [sameSignature, signature]

/-! ## Tables -/

namespace MethodTable

variable {ms : List (Method β)} {m k : Method β} {name : String} {arity : Nat}

/-- No method that is kept covers one that is kept after it. -/
theorem pairwise_visible (ms : List (Method β)) :
    (visible ms).Pairwise fun k m => covers k m = false := by
  induction ms using List.reverseRecOn with
  | nil => exact .nil
  | append_singleton ms m ih =>
    rw [visible_concat]
    split
    · exact ih
    · next hnew =>
      refine List.pairwise_append.mpr ⟨ih, List.pairwise_singleton _ m, fun k hk n hn => ?_⟩
      obtain rfl := List.mem_singleton.mp hn
      exact Blueprint.forall_eq_false_of_not_any hnew k hk

theorem nodup_visible (ms : List (Method β)) : (visible ms).Nodup := by
  refine (pairwise_visible ms).imp fun {k m} h heq => ?_
  rw [covers, Method.sameSignature_iff.mpr (congrArg _ heq), Bool.true_or] at h
  cases h

/-- The names that are kept first come in the order in which they are listed first, if a method is
covered by one of its name. -/
theorem eraseDups_names_visible
    (h : ∀ k ∈ ms, ∀ m ∈ ms, covers k m = true → k.name = m.name) :
    ((visible ms).map fun m => m.name).eraseDups = (ms.map fun m => m.name).eraseDups := by
  induction ms using List.reverseRecOn with
  | nil => rfl
  | append_singleton ms m ih =>
    have left {k} (hk : k ∈ ms) : k ∈ ms ++ [m] := List.mem_append_left _ hk
    have ih := ih fun k hk m hm => h k (left hk) m (left hm)
    have hnames (name : String) : name ∈ (visible ms).map (fun m => m.name) ↔
        name ∈ ms.map fun m => m.name := by
      rw [← List.mem_eraseDups, ih, List.mem_eraseDups]
    rw [visible_concat, List.map_append, List.map_singleton, eraseDups_concat]
    split
    · next hcovered =>
      obtain ⟨k, hk, hkm⟩ := List.any_eq_true.mp hcovered
      have hkms := (visible_sublist ms).subset hk
      have hname : m.name ∈ ms.map fun m => m.name :=
        List.mem_map.mpr ⟨k, hkms, h k (left hkms) m (by simp) hkm⟩
      rw [if_pos hname, ih]
    · rw [List.map_append, List.map_singleton, eraseDups_concat, ih]
      simp only [hnames]

theorem names_insert (m : Method β) (groups : List (String × List (Method β))) :
    (insert m groups).map (·.1) = if m.name ∈ groups.map (·.1) then groups.map (·.1)
      else groups.map (·.1) ++ [m.name] := by
  induction groups with
  | nil => rfl
  | cons g groups ih =>
    obtain ⟨n, ms⟩ := g
    rw [insert]
    by_cases hn : n = m.name
    · simp [hn]
    · simp only [if_neg hn, List.map_cons, ih, List.mem_cons, Ne.symm hn, false_or]
      split <;> simp

/-- **The names of a table** are those that are kept, in the order in which they first come. -/
theorem names_build (ms : List (Method β)) :
    (build ms).names = ((visible ms).map fun m => m.name).eraseDups := by
  rw [names, build]
  generalize visible ms = kept
  induction kept using List.reverseRecOn with
  | nil => rfl
  | append_singleton kept m ih =>
    rw [List.foldl_concat, names_insert, ih, List.map_append, List.map_singleton,
      eraseDups_concat]
    simp only [List.mem_eraseDups]

/-- Under distinct keys, a list of pairs is what looking its keys up gives. -/
theorem eq_map_lookup {α : Type} {groups : List (String × List α)}
    (h : (groups.map (·.1)).Nodup) :
    groups = (groups.map (·.1)).map fun n => (n, (groups.lookup n).getD []) := by
  induction groups with
  | nil => rfl
  | cons g groups ih =>
    obtain ⟨n, as⟩ := g
    obtain ⟨hn, hgroups⟩ := List.nodup_cons.mp h
    have hrest : ∀ n' ∈ groups.map (·.1), n' ≠ n := fun n' hn' heq => hn (heq ▸ hn')
    rw [List.map_cons, List.map_cons, List.lookup_cons_self, Option.getD_some]
    conv_lhs => rw [ih hgroups]
    refine congrArg _ (List.map_congr_left fun n' hn' => ?_)
    rw [lookup_cons_eq_ite, if_neg (hrest n' hn')]

/-- **A table is its names and the overloads of each.** -/
theorem groups_build (ms : List (Method β)) :
    (build ms).groups = (build ms).names.map fun name => (name, (build ms).overloads name) := by
  refine eq_map_lookup ?_
  rw [← names, names_build]
  exact nodup_eraseDups _

theorem mem_overloads_build : k ∈ (build ms).overloads name ↔ k ∈ visible ms ∧ k.name = name := by
  rw [overloads_build, List.mem_filter, decide_eq_true_iff]

theorem overloads_sublist (ms : List (Method β)) (name : String) :
    ((build ms).overloads name).Sublist ms := by
  rw [overloads_build]
  exact List.filter_sublist.trans (visible_sublist ms)

end MethodTable

/-! ## Listings along a line -/

/-- What a provider owes to a method table besides: it lists the methods of a type most derived
first. -/
def Provider.MostDerivedFirst (p : Provider β) : Prop :=
  ∀ {u : Universe β} {t f}, u.Reachable → u.Knows t →
    (p.methods u t f).Pairwise fun m n => n.declaring ∈ u.ancestors m.declaring

theorem Provider.mostDerivedFirst_reflector : (reflector : Provider β).MostDerivedFirst :=
  fun hu hk => hu.pairwise_methods hk _

namespace Universe

variable {u : Universe β} {t : TypeRef} {ms : List (Method β)} {k l m : Method β} {f : MemberFilter}
  {p : Provider β}

/-- Whether a method of a listing is declared below all others of its signature. -/
def MostDerivedIn (u : Universe β) (ms : List (Method β)) (k : Method β) : Prop :=
  k ∈ ms ∧ ∀ n ∈ ms, n.signature = k.signature → n.declaring ∈ u.ancestors k.declaring

section Listing

variable (hu : u.Reachable) (hk : u.Knows t)
  (hline : ∀ m ∈ ms, m.declaring ∈ u.ancestors t ∧ m ∈ u.methods m.declaring)

include hu hk hline

/-- **Along a line, a method covers those of its signature**: what it overrides is among them. -/
theorem covers_iff (hkms : k ∈ ms) (hm : m ∈ ms) :
    MethodTable.covers k m = true ↔ k.signature = m.signature := by
  obtain ⟨hka, hk'⟩ := hline k hkms
  obtain ⟨hma, hm'⟩ := hline m hm
  constructor
  · intro h
    exact Method.sameSignature_iff.mp (hu.sameSignature_of_covers
      (hu.knows_of_mem_ancestors hk hka) (hu.knows_of_mem_ancestors hk hma) hk' hm' h)
  · intro h
    rw [MethodTable.covers, Method.sameSignature_iff.mpr h, Bool.true_or]

theorem overrides_eq_false (hkms : k ∈ ms) (hm : m ∈ ms) (h : k.signature ≠ m.signature) :
    k.overrides m = false := by
  refine Bool.eq_false_iff.mpr fun ho => h ((covers_iff hu hk hline hkms hm).mp ?_)
  rw [MethodTable.covers, ho, Bool.or_true]

/-- One of each signature is kept. -/
theorem eq_of_mem_visible (hkv : k ∈ MethodTable.visible ms) (hl : l ∈ MethodTable.visible ms)
    (h : k.signature = l.signature) : k = l := by
  have hsub := (MethodTable.visible_sublist ms).subset
  refine List.inj_on_of_nodup_map (List.pairwise_map.mpr ?_) hkv hl h
  refine (MethodTable.pairwise_visible ms).imp_of_mem fun {x y} hx hy hxy hsig => ?_
  simp [(covers_iff hu hk hline (hsub hx) (hsub hy)).mpr hsig] at hxy

variable (hordered : ms.Pairwise fun m n => n.declaring ∈ u.ancestors m.declaring)

include hordered

/-- Something of each signature is kept, and it is declared at or below all others. -/
theorem exists_visible (hm : m ∈ ms) :
    ∃ k ∈ MethodTable.visible ms, k.signature = m.signature ∧
      m.declaring ∈ u.ancestors k.declaring := by
  obtain ⟨k, hkv, rfl | ⟨hcovers, hbelow⟩⟩ := MethodTable.exists_mem_visible hordered hm
  · exact ⟨k, hkv, rfl, mem_ancestors_self u _⟩
  · have hkms := (MethodTable.visible_sublist ms).subset hkv
    exact ⟨k, hkv, (covers_iff hu hk hline hkms hm).mp hcovers, hbelow⟩

/-- **What is kept of a signature is its most derived method.** -/
theorem mem_visible_iff : k ∈ MethodTable.visible ms ↔ u.MostDerivedIn ms k := by
  have hsub := (MethodTable.visible_sublist ms).subset
  constructor
  · intro hkv
    refine ⟨hsub hkv, fun n hn hsig => ?_⟩
    obtain ⟨l, hl, hln, hbelow⟩ := exists_visible hu hk hline hordered hn
    rwa [eq_of_mem_visible hu hk hline hkv hl (hsig.symm.trans hln.symm)]
  · rintro ⟨hkms, hbelow⟩
    obtain ⟨l, hl, hlk, hkl⟩ := exists_visible hu hk hline hordered hkms
    obtain ⟨hka, hk'⟩ := hline k hkms
    obtain ⟨-, hl'⟩ := hline l (hsub hl)
    -- they are declared by one type, which has one method of a signature
    have hdecl := hu.eq_of_mem_ancestors hkl (hbelow l (hsub hl) hlk)
    rw [hu.method_eq_of_signature (hu.knows_of_mem_ancestors hk hka) hk' (hdecl ▸ hl')
      (Method.sameSignature_iff.mpr hlk.symm)]
    exact hl

end Listing

/-! ## The table of a listing -/

/-- **A table that has the most derived method of each signature** of a listing, and nothing
else. -/
structure Tabulates (u : Universe β) (ms : List (Method β)) (c : MethodTable β) : Prop where
  /-- The table is its names and the overloads of each. -/
  groups_eq : c.groups = c.names.map fun name => (name, c.overloads name)
  /-- Each name that is listed has one place, that of its first method. -/
  names_eq : c.names = (ms.map fun m => m.name).eraseDups
  /-- There is one overload of each signature that is listed: the most derived method of it. -/
  kept_once : ∀ m ∈ ms, ∃ k, u.MostDerivedIn ms k ∧
    (c.overloads m.name).filter (fun l => l.signature = m.signature) = [k]
  /-- Nothing else is kept, and nothing else is dropped. -/
  mem_overloads_iff : ∀ name k, k ∈ c.overloads name ↔ u.MostDerivedIn ms k ∧ k.name = name
  /-- Nothing that is kept is overridden by anything that is. -/
  not_overrides : ∀ name name', ∀ k ∈ c.overloads name, ∀ m ∈ c.overloads name',
    k.overrides m = false
  /-- The overloads of a name are in the order of the listing. -/
  sublist : ∀ name, (c.overloads name).Sublist ms
  /-- An overload is found by name and arity if there is one. -/
  isSome_find?_iff : ∀ name arity, (c.find? name arity).isSome = true ↔
    ∃ k ∈ c.overloads name, k.arity = arity
  /-- It is declared at or below all others of that arity. -/
  find?_below : ∀ name arity k, c.find? name arity = some k →
    k ∈ c.overloads name ∧ k.arity = arity ∧
      ∀ m ∈ c.overloads name, m.arity = arity → m.declaring ∈ u.ancestors k.declaring

theorem tabulates_build (hu : u.Reachable) (hk : u.Knows t)
    (hline : ∀ m ∈ ms, m.declaring ∈ u.ancestors t ∧ m ∈ u.methods m.declaring)
    (hordered : ms.Pairwise fun m n => n.declaring ∈ u.ancestors m.declaring) :
    u.Tabulates ms (.build ms) where
  groups_eq := MethodTable.groups_build ms
  names_eq := by
    rw [MethodTable.names_build, MethodTable.eraseDups_names_visible]
    intro k hk' m hm h
    exact congrArg Prod.fst ((covers_iff hu hk hline hk' hm).mp h)
  kept_once m hm := by
    obtain ⟨k, hkv, hsig, -⟩ := exists_visible hu hk hline hordered hm
    refine ⟨k, (mem_visible_iff hu hk hline hordered).mp hkv, List.perm_singleton.mp ?_⟩
    rw [MethodTable.overloads_build, List.filter_filter]
    refine (List.perm_ext_iff_of_nodup ((MethodTable.nodup_visible ms).filter _)
      (List.nodup_singleton k)).mpr fun l => ?_
    simp only [List.mem_filter, Bool.and_eq_true, decide_eq_true_iff, List.mem_singleton]
    constructor
    · rintro ⟨hl, hlsig, -⟩
      exact eq_of_mem_visible hu hk hline hl hkv (hlsig.trans hsig.symm)
    · rintro rfl
      exact ⟨hkv, hsig, congrArg Prod.fst hsig⟩
  mem_overloads_iff name k := by
    rw [MethodTable.mem_overloads_build, mem_visible_iff hu hk hline hordered]
  not_overrides name name' k hk' m hm := by
    obtain ⟨hkv, -⟩ := MethodTable.mem_overloads_build.mp hk'
    obtain ⟨hmv, -⟩ := MethodTable.mem_overloads_build.mp hm
    have hsub := (MethodTable.visible_sublist ms).subset
    by_cases hsig : k.signature = m.signature
    · obtain rfl := eq_of_mem_visible hu hk hline hkv hmv hsig
      obtain ⟨hka, hkd⟩ := hline k (hsub hkv)
      exact hu.not_overrides_self
        ⟨_, hu.knows_of_mem_ancestors hk hka, mem_callables_of_method hkd⟩
    · exact overrides_eq_false hu hk hline (hsub hkv) (hsub hmv) hsig
  sublist := MethodTable.overloads_sublist ms
  isSome_find?_iff name arity := by simp [MethodTable.find?]
  find?_below name arity k h := by
    have hfound : k.arity = arity := by simpa using List.find?_some h
    refine ⟨List.mem_of_find?_eq_some h, hfound, fun m hm hma => ?_⟩
    have hlisted := hordered.sublist (MethodTable.overloads_sublist ms name)
    rcases eq_or_of_find? hlisted h hm (by simpa using hma) with rfl | hbelow
    · exact mem_ancestors_self u _
    · exact hbelow

theorem tabulates_snapshot (hline : p.KeepsToLine) (hfirst : p.MostDerivedFirst) (hu : u.Reachable)
    (hk : u.Knows t) (f : MemberFilter) :
    u.Tabulates (p.methods u t f) (Snapshot.build p u t f).methods :=
  tabulates_build hu hk (fun _ hm => hline.methods hu hk hm) (hfirst hu hk)

/-- **Method tables resolve signatures**: in every reachable universe, the table of a snapshot of any
known type under any filter has the most derived of the listed methods of each signature and nothing
else, in the order of the listing; and so it is with any other provider that keeps to the line of
the type and lists the most derived first. -/
theorem Reachable.methods_tabulated (hu : u.Reachable) (hk : u.Knows t) (f : MemberFilter) :
    u.Tabulates (Provider.reflector.methods u t f) (Snapshot.build .reflector u t f).methods ∧
      ∀ p : Provider β, p.KeepsToLine → p.MostDerivedFirst →
        u.Tabulates (p.methods u t f) (Snapshot.build p u t f).methods :=
  ⟨tabulates_snapshot Provider.keepsToLine_reflector Provider.mostDerivedFirst_reflector hu hk f,
    fun _ hline hfirst => tabulates_snapshot hline hfirst hu hk f⟩

/-- Two classes: the lower one overrides one overload of the upper class, redeclares another one as
a new virtual method, and adds a third. -/
def overloadingClasses : Universe ℕ :=
  (((empty.declare .classType "A").declare .classType "B").defineBy
    { Blueprint.start ⟨0, .classType, "A"⟩ with
      methods := [
        { name := "f", isVirtual := true, body := 1 },
        { name := "f", parameters := [{ name := "x", type := .primitive .i32 }], body := 2 },
        { name := "f", parameters := [{ name := "x", type := .primitive .string }], body := 3 }]
    }).defineBy
    { Blueprint.start ⟨1, .classType, "B"⟩ with
      extends? := some (.declared ⟨0, .classType, "A"⟩)
      methods := [
        { name := "g", body := 4 },
        { name := "f", isOverride := true, body := 5 },
        { name := "f", parameters := [{ name := "x", type := .primitive .string }],
          isVirtual := true, body := 6 }] }

theorem reachable_overloadingClasses : overloadingClasses.Reachable :=
  .defineBy (.defineBy (.declare _ _ (.declare _ _ .empty)) (by decide) rfl (by decide) rfl)
    (by decide) rfl (by decide) rfl

/-- Of six methods, the table keeps four: under one name the override, the redeclaration, and the
overload of the upper class that has no other of its signature. -/
theorem methods_tabulated_overloadingClasses :
    overloadingClasses.Tabulates
        (Provider.reflector.methods overloadingClasses (.declared ⟨1, .classType, "B"⟩) .all)
        (Snapshot.build .reflector overloadingClasses (.declared ⟨1, .classType, "B"⟩) .all).methods ∧
      (Snapshot.build .reflector overloadingClasses
          (.declared ⟨1, .classType, "B"⟩) .all).methods.groups.map
        (fun group => (group.1, group.2.map fun m => m.body)) = [("g", [4]), ("f", [5, 6, 2])] :=
  ⟨(reachable_overloadingClasses.methods_tabulated (t := .declared ⟨1, .classType, "B"⟩)
    (by decide) .all).1, by decide⟩

end Universe

end Reflection
