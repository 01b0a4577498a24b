import Reflection.Proofs.Snapshot.MostDerived

/-!
# Proofs/Snapshot/Bindings — collections compared as sets

    c.same d        same size, and every member of c is found in d
      │ same_iff_mem_bindings
      ▾
    the same bindings, a name with the identity of its member each

The comparison looks for the members of one collection in the other and never the other way round.
It need not: names are distinct, so no binding comes twice, and a part of a list that has none twice
and is as long is all of it (`same_iff_perm`).  So the comparison is one of sets, and knows nothing
of the order in which members were inserted.
-/

namespace Reflection.MemberCollection

variable {β : Type} {u : Universe β} {c d : MemberCollection β} {a : Accessor β}
  {as : List (Accessor β)}

/-- The names of a collection, each with the identity of its member. -/
def bindings (c : MemberCollection β) : List (String × MemberId) :=
  c.members.map fun a => (a.name, a.id)

theorem mem_bindings {name : String} {id : MemberId} :
    (name, id) ∈ c.bindings ↔ ∃ a ∈ c.members, a.name = name ∧ a.id = id := by
  simp [bindings]

theorem length_bindings (c : MemberCollection β) : c.bindings.length = c.size :=
  List.length_map _

/-- Under distinct names no binding comes twice. -/
theorem nodup_bindings (hc : c.names.Nodup) : c.bindings.Nodup := by
  have hnames : c.bindings.map Prod.fst = c.names := by
    rw [bindings, List.map_map]
    rfl
  exact .of_map Prod.fst (hnames ▸ hc)

/-- What the comparison asks of one member. -/
theorem any_get?_iff (hd : d.names.Nodup) :
    (d.get? a.name).any a.same = true ↔ (a.name, a.id) ∈ d.bindings := by
  rw [mem_bindings, Option.any_eq_true]
  refine exists_congr fun b => ?_
  rw [get?_eq_some_iff hd, Accessor.same, decide_eq_true_eq, and_assoc, eq_comm (a := a.id)]

/-- **Of two collections with distinct names, the comparison says whether one binds what the other
does**, in any order: one inclusion is enough, since the sizes are compared too. -/
theorem same_iff_perm (hc : c.names.Nodup) (hd : d.names.Nodup) :
    c.same d = true ↔ c.bindings.Perm d.bindings := by
  have hsame : c.same d = true ↔ c.bindings.length = d.bindings.length ∧
      ∀ a ∈ c.members, (a.name, a.id) ∈ d.bindings := by
    simp only [same, Bool.and_eq_true, beq_iff_eq, List.all_eq_true, any_get?_iff hd,
      length_bindings]
  rw [hsame]
  constructor
  · rintro ⟨hlength, hmem⟩
    have hsub : c.bindings ⊆ d.bindings := by
      intro b hb
      obtain ⟨a, ha, rfl⟩ := List.mem_map.mp hb
      exact hmem a ha
    exact ((nodup_bindings hc).subperm hsub).perm_of_length_le hlength.ge
  · intro hperm
    exact ⟨hperm.length_eq, fun a ha => hperm.mem_iff.mp (List.mem_map_of_mem ha)⟩

theorem same_iff_mem_bindings (hc : c.names.Nodup) (hd : d.names.Nodup) :
    c.same d = true ↔ ∀ b, b ∈ c.bindings ↔ b ∈ d.bindings := by
  rw [same_iff_perm hc hd, List.perm_ext_iff_of_nodup (nodup_bindings hc) (nodup_bindings hd)]

/-! ## Inserting in another order -/

/-- **Members of distinct names stay as they are inserted.** -/
theorem members_build_of_nodup (u : Universe β) (h : (as.map Accessor.name).Nodup) :
    (build u as).members = as := by
  induction as using List.reverseRecOn with
  | nil => rfl
  | append_singleton as a ih =>
    rw [List.map_append, List.map_singleton, List.nodup_append] at h
    have hnew : ∀ b ∈ as, b.name ≠ a.name := fun b hb =>
      h.2.2 _ (List.mem_map_of_mem hb) _ (List.mem_singleton_self _)
    rw [build_concat, ih h.1, insert_eq fun b hb hname => absurd hname (hnew b hb), if_neg]
    simpa using hnew

/-- Collections that come from `build`. -/
abbrev Built (β : Type) : Type := {c : MemberCollection β // ∃ u as, build u as = c}

theorem Built.nodup_names (c : Built β) : c.1.names.Nodup := by
  obtain ⟨_, u, as, rfl⟩ := c
  exact nodup_names_build u as

/-- The members of a collection inserted in another order. -/
theorem Built.bindings_perm (c : Built β) (h : as.Perm c.1.members) (u : Universe β) :
    (build u as).bindings.Perm c.1.bindings := by
  rw [bindings, members_build_of_nodup u ((h.map Accessor.name).nodup_iff.mpr c.nodup_names)]
  exact h.map _

/-- **Collections are compared as sets**: any two that were built, of whatever members and over
whatever types, are the same exactly if they have the same bindings.  So the comparison is an
equivalence, and inserting the members of either side in another order makes no difference to it. -/
theorem compared_as_sets (β : Type) :
    (∀ c d : Built β, c.1.same d.1 = true ↔ ∀ b, b ∈ c.1.bindings ↔ b ∈ d.1.bindings) ∧
    Equivalence (fun c d : Built β => c.1.same d.1 = true) ∧
    ∀ (c d : Built β) (u v : Universe β) (as bs : List (Accessor β)),
      as.Perm c.1.members → bs.Perm d.1.members →
        (build u as).same (build v bs) = c.1.same d.1 := by
  have hsame (c d : Built β) := same_iff_perm c.nodup_names d.nodup_names
  refine ⟨fun c d => same_iff_mem_bindings c.nodup_names d.nodup_names, ?_, ?_⟩
  · exact {
      refl := fun c => (hsame c c).mpr (.refl _)
      symm := fun {c d} h => (hsame d c).mpr ((hsame c d).mp h).symm
      trans := fun {c d e} h h' => (hsame c e).mpr (((hsame c d).mp h).trans ((hsame d e).mp h')) }
  · intro c d u v as bs has hbs
    have hc := c.bindings_perm has u
    have hd := d.bindings_perm hbs v
    rw [Bool.eq_iff_iff, hsame c d, hsame ⟨_, u, as, rfl⟩ ⟨_, v, bs, rfl⟩]
    exact ⟨fun h => hc.symm.trans (h.trans hd), fun h => hc.trans (h.trans hd.symm)⟩

/-- The fields of a class, of which one hides that of its base, inserted backwards and forwards. -/
theorem compared_as_sets_hidingWorld :
    let u := hidingWorld.types
    let c := (Snapshot.build .reflector u (.declared ⟨1, .classType, "B"⟩) .all).fields
    c.names = ["limit", "x"] ∧ (build u c.members.reverse).same (build u c.members) = true := by
  intro u c
  obtain ⟨-, hequivalence, horder⟩ := compared_as_sets Unit
  let built : Built Unit := ⟨c, _, _, rfl⟩
  refine ⟨by decide, ?_⟩
  rw [horder built built _ _ _ _ (List.reverse_perm _) (.refl _)]
  exact hequivalence.refl built

end Reflection.MemberCollection
