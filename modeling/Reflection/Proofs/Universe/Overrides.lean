import Reflection.Call.Invocation
import Reflection.Proofs.Universe.Members

/-!
# Proofs/Universe/Overrides — how overrides hang together along a line

    linked          every callable of a type starts a chain, continues one, or is taken over
      ├─ exists_of_mem_overridden   a chain goes strictly upwards, through callables of one heading
      └─ eq_or_overrides            two callables of one root: the lower one overrides the other

The methods and accessors of a type are its callables.  An override continues the chain of what it
replaces, the nearest virtual instance callable of its heading.  So the callables of one root that
lie on a line form one chain: nothing between a callable and what it continues has that root.
-/

namespace Reflection

variable {β : Type}

/-! ## Headings and roots -/

/-- What an override keeps of a callable: what it is to its type, its name and, of a method, the
shape of its parameters. -/
def MethodDecl.heading (d : MethodDecl β) : MemberRole × String × List (TypeRef × ParameterMode) :=
  (d.id.role, d.name, if d.id.role = .method then d.parameters.map Parameter.shape else [])

/-- The declaration that the chain of a callable goes back to. -/
def Method.root (m : Method β) : MethodDecl β := m.overridden.getLast?.getD m.toMethodDecl

theorem Method.root_of_nil {m : Method β} (h : m.overridden = []) : m.root = m.toMethodDecl := by
  rw [root, h]
  rfl

/-- An override has the root of what it continues. -/
theorem Method.root_of_overriding {m n : Method β} (h : m.overridden = Blueprint.overriding n) :
    m.root = n.root := by
  rw [root, root, h, Blueprint.overriding, List.getLast?_cons, Option.getD_some]

theorem Method.overrides_iff {m n : Method β} :
    m.overrides n = true ↔ ∃ d ∈ m.overridden, d.id = n.id := by
  simp [overrides]

theorem Method.overrides_of_overriding {m n k : Method β}
    (h : m.overridden = Blueprint.overriding n) (hk : n = k ∨ n.overrides k = true) :
    m.overrides k = true := by
  rw [overrides_iff, h, Blueprint.overriding]
  rcases hk with rfl | hk
  · exact ⟨_, List.mem_cons_self, rfl⟩
  · obtain ⟨d, hd, hid⟩ := overrides_iff.mp hk
    exact ⟨d, List.mem_cons_of_mem _ hd, hid⟩

/-- The names of accessors of one kind differ as those of their properties do. -/
theorem AccessorKind.memberName_injective (kind : AccessorKind) :
    Function.Injective kind.memberName := by
  intro a b h
  cases kind <;> simpa [memberName, String.ext_iff, toString] using h

@[simp] theorem AccessorKind.role_ne_method (kind : AccessorKind) : kind.role ≠ .method := by
  cases kind <;> simp [role]

theorem AccessorKind.role_injective : Function.Injective AccessorKind.role := by
  intro a b h
  cases a <;> cases b <;> simp_all [role]

namespace Universe

variable {u : Universe β} {s t a : TypeRef} {c m n : Method β} {p q : Property β}

/-- The callables that a type declares itself. -/
def ownCallables (u : Universe β) (t : TypeRef) : List (Method β) :=
  (u.callables t).filter fun m => m.declaring = t

theorem mem_ownCallables : m ∈ u.ownCallables t ↔ m ∈ u.callables t ∧ m.declaring = t := by
  simp [ownCallables]

theorem mem_callables : m ∈ u.callables t ↔
    m ∈ u.methods t ∨ ∃ p ∈ u.properties t, ∃ kind, p.accessor? kind = some m := by
  simp only [callables, List.mem_append, List.mem_flatMap, Property.mem_accessors]

theorem mem_callables_of_method (hm : m ∈ u.methods t) : m ∈ u.callables t :=
  mem_callables.mpr (.inl hm)

theorem mem_callables_of_accessor {kind : AccessorKind} (hp : p ∈ u.properties t)
    (hm : p.accessor? kind = some m) : m ∈ u.callables t :=
  mem_callables.mpr (.inr ⟨p, hp, kind, hm⟩)

/-! ## What the searches find -/

/-- What a search along the line of bases finds lies on a base, and no base before it has the
like. -/
theorem Reachable.findSome?_bases (hu : u.Reachable) {α : Type} {find : TypeRef → Option α} {x : α}
    (h : (u.definition t).bases.findSome? find = some x) :
    ∃ s ∈ (u.definition t).bases, find s = some x ∧
      ∀ a ∈ (u.definition t).bases, find a ≠ none → a ∈ u.ancestors s := by
  obtain ⟨before, s, after, hl, hs, hbefore⟩ := List.findSome?_eq_some_iff.mp h
  refine ⟨s, by simp [hl], hs, fun a ha hne => hu.mem_ancestors_of_split hl ha fun hmem => ?_⟩
  exact hne (hbefore a hmem)

/-- **The method that an override replaces** is the nearest virtual instance method of its
signature. -/
theorem Reachable.overriddenMethod?_eq_some (hu : u.Reachable) {name : String}
    {ps : List Parameter}
    (h : Blueprint.overriddenMethod? u (u.definition t).bases name ps = some n) :
    ∃ s ∈ (u.definition t).bases, n ∈ u.methods s ∧ n.isVirtual = true ∧ n.isStatic = false ∧
      n.name = name ∧ n.parameters.map Parameter.shape = ps.map Parameter.shape ∧
      ∀ a ∈ (u.definition t).bases, ∀ m ∈ u.methods a, m.isVirtual = true → m.isStatic = false →
        m.name = name → m.parameters.map Parameter.shape = ps.map Parameter.shape →
        a ∈ u.ancestors s := by
  obtain ⟨s, hs, hn, hnear⟩ := hu.findSome?_bases h
  have hsat := List.find?_some hn
  simp only [Bool.and_eq_true, Bool.not_eq_true', beq_iff_eq, Parameter.sameShape_iff] at hsat
  obtain ⟨⟨⟨hv, hst⟩, hname⟩, hshape⟩ := hsat
  refine ⟨s, hs, List.mem_of_find?_eq_some hn, hv, hst, hname, hshape, ?_⟩
  intro a ha m hm hmv hms hmn hmp
  refine hnear a ha fun hnone => ?_
  have := List.find?_eq_none.mp hnone m hm
  simp_all

/-- **The property that an override replaces** is the nearest virtual instance property of its
name. -/
theorem Reachable.overriddenProperty?_eq_some (hu : u.Reachable) {name : String}
    (h : Blueprint.overriddenProperty? u (u.definition t).bases name = some q) :
    ∃ s ∈ (u.definition t).bases, q ∈ u.properties s ∧ q.isVirtual = true ∧ q.isStatic = false ∧
      q.name = name ∧
      ∀ a ∈ (u.definition t).bases, ∀ p ∈ u.properties a, p.isVirtual = true →
        p.isStatic = false → p.name = name → a ∈ u.ancestors s := by
  obtain ⟨s, hs, hq, hnear⟩ := hu.findSome?_bases h
  have hsat := List.find?_some hq
  simp only [Bool.and_eq_true, Bool.not_eq_true', beq_iff_eq] at hsat
  obtain ⟨⟨hv, hst⟩, hname⟩ := hsat
  refine ⟨s, hs, List.mem_of_find?_eq_some hq, hv, hst, hname, ?_⟩
  intro a ha p hp hpv hps hpn
  refine hnear a ha fun hnone => ?_
  have := List.find?_eq_none.mp hnone p hp
  simp_all

/-! ## What a type declares itself -/

theorem Reachable.method_id (hu : u.Reachable) (hk : u.Knows t) (hm : m ∈ u.methods t) :
    ∃ i, (u.methods t)[i]? = some m ∧ m.id = ⟨t, .method, i⟩ := by
  obtain ⟨i, hi, hnext⟩ := (hu.grown_methods hk).exists_next hm
  have hlen : i < (u.methods t).length := (List.getElem?_eq_some_iff.mp hi).1
  refine ⟨i, hi, hnext.id.trans ?_⟩
  rw [List.length_take, Nat.min_eq_left (Nat.le_of_lt hlen)]

theorem Reachable.property_id (hu : u.Reachable) (hk : u.Knows t) (hp : p ∈ u.properties t) :
    ∃ i, (u.properties t)[i]? = some p ∧ p.id = ⟨t, .property, i⟩ := by
  obtain ⟨i, hi, hnext⟩ := (hu.grown_properties hk).exists_next hp
  have hlen : i < (u.properties t).length := (List.getElem?_eq_some_iff.mp hi).1
  refine ⟨i, hi, hnext.id.trans ?_⟩
  rw [List.length_take, Nat.min_eq_left (Nat.le_of_lt hlen)]

theorem Reachable.declaring_of_mem_methods (hu : u.Reachable) (hk : u.Knows t)
    (hm : m ∈ u.methods t) : m.declaring = t := by
  obtain ⟨i, -, hid⟩ := hu.method_id hk hm
  rw [Method.declaring, hid]

theorem Reachable.declaring_of_mem_properties (hu : u.Reachable) (hk : u.Knows t)
    (hp : p ∈ u.properties t) : p.declaring = t := by
  obtain ⟨i, -, hid⟩ := hu.property_id hk hp
  rw [Property.declaring, hid]

theorem Reachable.method_heading (hu : u.Reachable) (hk : u.Knows t) (hm : m ∈ u.methods t) :
    m.heading = (.method, m.name, m.parameters.map Parameter.shape) := by
  obtain ⟨i, -, hid⟩ := hu.method_id hk hm
  rw [MethodDecl.heading, hid, if_pos rfl]

/-- **An accessor of a property**: its own one, or that of the property it overrides. -/
theorem Reachable.accessor_cases (hu : u.Reachable) (hk : u.Knows t) (hp : p ∈ u.properties t)
    {kind : AccessorKind} (hm : p.accessor? kind = some m) :
    Blueprint.OwnAccessor p kind none m ∨
      ∃ q, Blueprint.overriddenProperty? u (u.definition t).bases p.name = some q ∧
        (p.overridden ≠ [] ∧ Blueprint.OwnAccessor p kind (q.accessor? kind) m ∨
          q.accessor? kind = some m) := by
  obtain ⟨i, -, hp⟩ := (hu.grown_properties hk).exists_next hp
  rcases hp.continues with hover | ⟨q, hq, hover⟩
  · rcases hover.accessor kind with h | ⟨m', hm', hown⟩
    · simp [h] at hm
    · obtain rfl := Option.some.inj (hm.symm.trans hm')
      exact .inl hown
  · refine .inr ⟨q, hq, ?_⟩
    rcases hover.accessor kind with h | ⟨m', hm', hown⟩
    · exact .inr (h.symm.trans hm)
    · obtain rfl := Option.some.inj (hm.symm.trans hm')
      exact .inl ⟨by simp [hover.overridden], hown⟩

/-- An accessor is what its kind makes of its property, whether it is an own one or not. -/
theorem Reachable.accessor_heading (hu : u.Reachable) (hk : u.Knows t) (hp : p ∈ u.properties t)
    {kind : AccessorKind} (hm : p.accessor? kind = some m) :
    m.heading = (kind.role, kind.memberName p.name, []) := by
  induction t using hu.bases_induction generalizing p with
  | step t ih =>
    have hown : ∀ {inherited? : Option (Method β)}, Blueprint.OwnAccessor p kind inherited? m →
        m.heading = (kind.role, kind.memberName p.name, []) := fun h => by
      rw [MethodDecl.heading, h.id, h.name, if_neg kind.role_ne_method]
    rcases hu.accessor_cases hk hp hm with h | ⟨q, hq, ⟨-, h⟩ | h⟩
    · exact hown h
    · exact hown h
    · obtain ⟨s, hs, hqs, -, -, hname, -⟩ := hu.overriddenProperty?_eq_some hq
      rw [← hname]
      exact ih s hs (hu.knows_of_mem_bases hs) hqs h

/-- **A callable of a type is declared on its line**, and by itself where it is declared. -/
theorem Reachable.mem_ownCallables_declaring (hu : u.Reachable) (hk : u.Knows t)
    (hm : m ∈ u.callables t) : m ∈ u.ownCallables m.declaring ∧ m.declaring ∈ u.ancestors t := by
  induction t using hu.bases_induction with
  | step t ih =>
    have hown : m.declaring = t →
        m ∈ u.ownCallables m.declaring ∧ m.declaring ∈ u.ancestors t := fun h => by
      rw [h]
      exact ⟨mem_ownCallables.mpr ⟨hm, h⟩, List.mem_cons_self⟩
    rcases mem_callables.mp hm with hm' | ⟨p, hp, kind, hm'⟩
    · exact hown (hu.declaring_of_mem_methods hk hm')
    · have hpd := hu.declaring_of_mem_properties hk hp
      rcases hu.accessor_cases hk hp hm' with h | ⟨q, hq, ⟨-, h⟩ | h⟩
      · exact hown (by rw [Method.declaring, h.id, hpd])
      · exact hown (by rw [Method.declaring, h.id, hpd])
      · obtain ⟨s, hs, hqs, -⟩ := hu.overriddenProperty?_eq_some hq
        have := ih s hs (hu.knows_of_mem_bases hs) (mem_callables_of_accessor hqs h)
        exact ⟨this.1, mem_ancestors_of_mem_bases (hu.mem_bases_of_mem_ancestors hs this.2)⟩

/-- A callable of a base is not declared by the type. -/
theorem Reachable.declaring_ne_of_mem_bases (hu : u.Reachable) (hs : s ∈ (u.definition t).bases)
    (hm : m ∈ u.callables s) : m.declaring ≠ t := by
  rintro rfl
  have := (hu.mem_ownCallables_declaring (hu.knows_of_mem_bases hs) hm).2
  exact hu.not_mem_ancestors_of_mem_bases hs this

/-- An accessor that the type of its property declares is one that the property has of its own. -/
theorem Reachable.ownAccessor_of_declaring (hu : u.Reachable) (hk : u.Knows t)
    (hp : p ∈ u.properties t) {kind : AccessorKind} (hm : p.accessor? kind = some m)
    (ht : m.declaring = t) : ∃ inherited?, Blueprint.OwnAccessor p kind inherited? m := by
  rcases hu.accessor_cases hk hp hm with h | ⟨q, hq, ⟨-, h⟩ | h⟩
  · exact ⟨_, h⟩
  · exact ⟨_, h⟩
  · obtain ⟨s, hs, hqs, -⟩ := hu.overriddenProperty?_eq_some hq
    exact absurd ht (hu.declaring_ne_of_mem_bases hs (mem_callables_of_accessor hqs h))

/-! ## One callable for each heading -/

theorem Reachable.method_eq_of_signature (hu : u.Reachable) (hk : u.Knows t)
    (hm : m ∈ u.methods t) (hn : n ∈ u.methods t) (h : m.sameSignature n = true) : m = n := by
  refine (hu.grown_methods hk).eq_of_like (fun h => h.distinct) (fun {x y} hxy => ?_) hm hn h
  simp only [Method.sameSignature, Bool.and_eq_true, beq_iff_eq, Parameter.sameShape_iff] at hxy ⊢
  exact ⟨hxy.1.symm, hxy.2.symm⟩

theorem Reachable.property_eq_of_name (hu : u.Reachable) (hk : u.Knows t)
    (hp : p ∈ u.properties t) (hq : q ∈ u.properties t) (h : p.name = q.name) : p = q := by
  refine (hu.grown_properties hk).eq_of_like (fun h => h.distinct) (fun {x y} hxy => ?_) hp hq
    (beq_iff_eq.mpr h)
  exact beq_iff_eq.mpr (beq_iff_eq.mp hxy).symm

/-- A callable that is a method to its type is a method of it. -/
theorem Reachable.mem_methods_of_role (hu : u.Reachable) (hk : u.Knows t) (hm : m ∈ u.callables t)
    (h : m.id.role = .method) : m ∈ u.methods t := by
  refine (mem_callables.mp hm).resolve_right ?_
  rintro ⟨p, hp, kind, hm⟩
  have hrole : m.id.role = kind.role := congrArg Prod.fst (hu.accessor_heading hk hp hm)
  exact kind.role_ne_method (hrole.symm.trans h)

/-- A callable that is an accessor to its type is an accessor of that kind of a property. -/
theorem Reachable.exists_property_of_role (hu : u.Reachable) (hk : u.Knows t)
    (hm : m ∈ u.callables t) {kind : AccessorKind} (h : m.id.role = kind.role) :
    ∃ p ∈ u.properties t, p.accessor? kind = some m := by
  rcases mem_callables.mp hm with hm | ⟨p, hp, kind', hm⟩
  · have hrole : m.id.role = .method := congrArg Prod.fst (hu.method_heading hk hm)
    exact absurd (h.symm.trans hrole) kind.role_ne_method
  · have hrole : m.id.role = kind'.role := congrArg Prod.fst (hu.accessor_heading hk hp hm)
    obtain rfl := AccessorKind.role_injective (hrole.symm.trans h)
    exact ⟨p, hp, hm⟩

/-- An accessor has the parameters of its kind. -/
theorem Reachable.parameters_of_role (hu : u.Reachable) (hk : u.Knows t) (hm : m ∈ u.callables t)
    {kind : AccessorKind} (h : m.id.role = kind.role) :
    ∃ type, m.parameters = kind.parameters type := by
  obtain ⟨hown, hup⟩ := hu.mem_ownCallables_declaring hk hm
  have hkd := hu.knows_of_mem_ancestors hk hup
  obtain ⟨p, hp, hpm⟩ := hu.exists_property_of_role hkd (mem_ownCallables.mp hown).1 h
  obtain ⟨_, hacc⟩ := hu.ownAccessor_of_declaring hkd hp hpm rfl
  exact ⟨p.type, hacc.parameters⟩

/-- **A type has one callable of a heading at most.** -/
theorem Reachable.eq_of_heading (hu : u.Reachable) (hk : u.Knows t) (hm : m ∈ u.callables t)
    (hn : n ∈ u.callables t) (h : m.heading = n.heading) : m = n := by
  rcases mem_callables.mp hm with hmm | ⟨p, hp, kind, hma⟩
  · rw [hu.method_heading hk hmm] at h
    have hnm := hu.mem_methods_of_role hk hn (congrArg Prod.fst h).symm
    rw [hu.method_heading hk hnm] at h
    refine hu.method_eq_of_signature hk hmm hnm ?_
    simpa [Method.sameSignature] using h
  · rw [hu.accessor_heading hk hp hma] at h
    obtain ⟨q, hq, hna⟩ := hu.exists_property_of_role hk hn (congrArg Prod.fst h).symm
    rw [hu.accessor_heading hk hq hna] at h
    have hname : p.name = q.name := AccessorKind.memberName_injective kind (by simpa using h)
    obtain rfl := hu.property_eq_of_name hk hp hq hname
    exact Option.some.inj (hma.symm.trans hna)

/-- **A type declares one callable of an identity at most.** -/
theorem Reachable.eq_of_id (hu : u.Reachable) (hk : u.Knows t) (hm : m ∈ u.ownCallables t)
    (hn : n ∈ u.ownCallables t) (h : m.id = n.id) : m = n := by
  obtain ⟨hm, hmt⟩ := mem_ownCallables.mp hm
  obtain ⟨hn, hnt⟩ := mem_ownCallables.mp hn
  rcases mem_callables.mp hm with hmm | ⟨p, hp, kind, hma⟩
  · obtain ⟨i, hi, hmid⟩ := hu.method_id hk hmm
    have hnr : n.id.role = .method := by rw [← h, hmid]
    obtain ⟨j, hj, hnid⟩ := hu.method_id hk (hu.mem_methods_of_role hk hn hnr)
    obtain rfl : i = j := by simpa [hmid, hnid] using h
    exact Option.some.inj (hi.symm.trans hj)
  · obtain ⟨_, hmown⟩ := hu.ownAccessor_of_declaring hk hp hma hmt
    have hnr : n.id.role = kind.role := by rw [← h, hmown.id]
    obtain ⟨q, hq, hna⟩ := hu.exists_property_of_role hk hn hnr
    obtain ⟨_, hnown⟩ := hu.ownAccessor_of_declaring hk hq hna hnt
    obtain ⟨i, hi, hpid⟩ := hu.property_id hk hp
    obtain ⟨j, hj, hqid⟩ := hu.property_id hk hq
    have hij : p.declaring = q.declaring ∧ i = j := by
      simpa [hmown.id, hnown.id, hpid, hqid] using h
    obtain ⟨-, rfl⟩ := hij
    obtain rfl := Option.some.inj (hi.symm.trans hj)
    exact Option.some.inj (hma.symm.trans hna)

/-! ## Chains -/

/-- An accessor of a virtual instance property is a virtual instance callable. -/
theorem Reachable.accessor_isVirtual (hu : u.Reachable) (hk : u.Knows t) (hp : p ∈ u.properties t)
    (hv : p.isVirtual = true) (hs : p.isStatic = false) {kind : AccessorKind}
    (hm : p.accessor? kind = some m) : m.isVirtual = true ∧ m.isStatic = false := by
  induction t using hu.bases_induction generalizing p with
  | step t ih =>
    rcases hu.accessor_cases hk hp hm with h | ⟨q, hq, ⟨-, h⟩ | h⟩
    · exact ⟨h.isVirtual.trans hv, h.isStatic.trans hs⟩
    · exact ⟨h.isVirtual.trans hv, h.isStatic.trans hs⟩
    · obtain ⟨s, hs', hqs, hqv, hqst, -⟩ := hu.overriddenProperty?_eq_some hq
      exact ih s hs' (hu.knows_of_mem_bases hs') hqs hqv hqst h

/-- A base whose callable may be continued or taken over below: it is a virtual instance callable,
and every base that declares one of its heading is that base or above it. -/
structure Nearest (u : Universe β) (t s : TypeRef) (n : Method β) : Prop where
  mem_bases : s ∈ (u.definition t).bases
  mem_callables : n ∈ u.callables s
  isVirtual : n.isVirtual = true
  isStatic : n.isStatic = false
  above : ∀ a ∈ (u.definition t).bases, ∀ m ∈ u.ownCallables a, m.isVirtual = true →
    m.isStatic = false → m.heading = n.heading → a ∈ u.ancestors s

/-- The search for methods finds the nearest callable of a heading. -/
theorem Reachable.nearest_method (hu : u.Reachable) {name : String} {ps : List Parameter}
    (h : Blueprint.overriddenMethod? u (u.definition t).bases name ps = some n) :
    ∃ s, u.Nearest t s n ∧ n.heading = (.method, name, ps.map Parameter.shape) := by
  obtain ⟨s, hs, hn, hv, hst, hname, hshape, hnear⟩ := hu.overriddenMethod?_eq_some h
  have hhead := hu.method_heading (hu.knows_of_mem_bases hs) hn
  rw [hname, hshape] at hhead
  refine ⟨s, ⟨hs, mem_callables_of_method hn, hv, hst, fun a ha m hm hmv hms hmh => ?_⟩, hhead⟩
  have hka := hu.knows_of_mem_bases ha
  rw [hhead] at hmh
  have hmm := hu.mem_methods_of_role hka (mem_ownCallables.mp hm).1 (congrArg Prod.fst hmh)
  rw [hu.method_heading hka hmm] at hmh
  simp only [Prod.mk.injEq, true_and] at hmh
  exact hnear a ha m hmm hmv hms hmh.1 hmh.2

/-- The search for properties finds the nearest accessors of a heading. -/
theorem Reachable.nearest_accessor (hu : u.Reachable) {name : String}
    (h : Blueprint.overriddenProperty? u (u.definition t).bases name = some q)
    {kind : AccessorKind} (hn : q.accessor? kind = some n) :
    ∃ s, u.Nearest t s n ∧ n.heading = (kind.role, kind.memberName name, []) := by
  obtain ⟨s, hs, hq, hv, hst, hname, hnear⟩ := hu.overriddenProperty?_eq_some h
  have hks := hu.knows_of_mem_bases hs
  obtain ⟨hnv, hnst⟩ := hu.accessor_isVirtual hks hq hv hst hn
  have hhead := hu.accessor_heading hks hq hn
  rw [hname] at hhead
  refine ⟨s, ⟨hs, mem_callables_of_accessor hq hn, hnv, hnst,
    fun a ha m hm hmv hms hmh => ?_⟩, hhead⟩
  have hka := hu.knows_of_mem_bases ha
  obtain ⟨hma, hdecl⟩ := mem_ownCallables.mp hm
  rw [hhead] at hmh
  obtain ⟨p, hp, hpm⟩ := hu.exists_property_of_role hka hma (congrArg Prod.fst hmh)
  rw [hu.accessor_heading hka hp hpm] at hmh
  have hpn : p.name = name := AccessorKind.memberName_injective kind (by simpa using hmh)
  obtain ⟨_, hown⟩ := hu.ownAccessor_of_declaring hka hp hpm hdecl
  exact hnear a ha p hp (hown.isVirtual.symm.trans hmv) (hown.isStatic.symm.trans hms) hpn

/-- **How a callable comes to a type**: as the start of a chain, as an override that continues one,
or as an accessor that an overriding property takes over. -/
inductive Linked (u : Universe β) (t : TypeRef) (c : Method β) : Prop
  | starts (own : c.declaring = t) (chain : c.overridden = [])
  | continues (s : TypeRef) (n : Method β) (own : c.declaring = t) (hn : u.Nearest t s n)
      (heading : n.heading = c.heading) (chain : c.overridden = Blueprint.overriding n)
  | inherits (s : TypeRef) (hc : u.Nearest t s c)

theorem Reachable.linked (hu : u.Reachable) (hk : u.Knows t) (hc : c ∈ u.callables t) :
    u.Linked t c := by
  rcases mem_callables.mp hc with hm | ⟨p, hp, kind, hm⟩
  · obtain ⟨i, hi, -⟩ := hu.method_id hk hm
    have hown := hu.declaring_of_mem_methods hk hm
    rcases ((hu.grown_methods hk).next_of_getElem? hi).continues with hnil | ⟨n, hn, hchain⟩
    · exact .starts hown hnil
    · obtain ⟨s, hs, hhead⟩ := hu.nearest_method hn
      exact .continues s n hown hs (hhead.trans (hu.method_heading hk hm).symm) hchain
  · have hhead := hu.accessor_heading hk hp hm
    have howns : ∀ {inherited? : Option (Method β)}, Blueprint.OwnAccessor p kind inherited? c →
        c.declaring = t := fun h => by
      rw [Method.declaring, h.id, hu.declaring_of_mem_properties hk hp]
    rcases hu.accessor_cases hk hp hm with h | ⟨q, hq, ⟨-, h⟩ | h⟩
    · exact .starts (howns h) h.overridden
    · cases hn : q.accessor? kind with
      | none => exact .starts (howns h) (by simpa [hn] using h.overridden)
      | some n =>
        obtain ⟨s, hs, hnhead⟩ := hu.nearest_accessor hq hn
        exact .continues s n (howns h) hs (hnhead.trans hhead.symm)
          (by simpa [hn] using h.overridden)
    · obtain ⟨s, hs, -⟩ := hu.nearest_accessor hq h
      exact .inherits s hs

/-- A declaration that a callable overrides is that of a callable above it: one of the same heading
and root, and virtual. -/
structure Above (u : Universe β) (c n : Method β) : Prop where
  own : n ∈ u.ownCallables n.declaring
  mem_bases : n.declaring ∈ (u.definition c.declaring).bases
  heading : n.heading = c.heading
  root : n.root = c.root
  isVirtual : n.isVirtual = true
  isStatic : n.isStatic = false

/-- **A chain goes strictly upwards**, through callables of one heading and one root. -/
theorem Reachable.exists_of_mem_overridden (hu : u.Reachable) (hk : u.Knows t)
    (hc : c ∈ u.callables t) {d : MethodDecl β} (hd : d ∈ c.overridden) :
    ∃ n, n.toMethodDecl = d ∧ u.Above c n := by
  induction t using hu.bases_induction generalizing c with
  | step t ih =>
    cases hu.linked hk hc with
    | starts own chain => simp [chain] at hd
    | continues s n own hn heading chain =>
      have hks := hu.knows_of_mem_bases hn.mem_bases
      obtain ⟨hnown, hns⟩ := hu.mem_ownCallables_declaring hks hn.mem_callables
      have hroot := Method.root_of_overriding chain
      have hup : n.declaring ∈ (u.definition c.declaring).bases := by
        rw [own]
        exact hu.mem_bases_of_mem_ancestors hn.mem_bases hns
      rw [chain, Blueprint.overriding, List.mem_cons] at hd
      rcases hd with rfl | hd
      · exact ⟨n, rfl, hnown, hup, heading, hroot.symm, hn.isVirtual, hn.isStatic⟩
      · obtain ⟨k, hkd, hkn⟩ := ih s hn.mem_bases hks hn.mem_callables hd
        exact ⟨k, hkd, hkn.own, hu.mem_bases_of_mem_ancestors hup
          (mem_ancestors_of_mem_bases hkn.mem_bases), hkn.heading.trans heading,
          hkn.root.trans hroot.symm, hkn.isVirtual, hkn.isStatic⟩
    | inherits s hs =>
      exact ih s hs.mem_bases (hu.knows_of_mem_bases hs.mem_bases) hs.mem_callables hd

/-- What overrides a callable lies strictly below it, with the same heading and root. -/
theorem Reachable.above_of_overrides (hu : u.Reachable) (hk : u.Knows t) (hc : c ∈ u.callables t)
    (hka : u.Knows a) (hm : m ∈ u.ownCallables a) (h : c.overrides m = true) : u.Above c m := by
  obtain ⟨-, rfl⟩ := mem_ownCallables.mp hm
  obtain ⟨d, hd, hid⟩ := Method.overrides_iff.mp h
  obtain ⟨n, rfl, hn⟩ := hu.exists_of_mem_overridden hk hc hd
  have hdecl : n.declaring = m.declaring := congrArg MemberId.declaring hid
  obtain rfl := hu.eq_of_id hka (hdecl ▸ hn.own) hm hid
  exact hn

/-- The callable that a chain goes back to: one on the line that overrides nothing.  Unless the
chain is no longer than that, it is a virtual instance callable. -/
structure RootOf (u : Universe β) (c r : Method β) : Prop where
  root : r.toMethodDecl = c.root
  own : r ∈ u.ownCallables r.declaring
  mem_ancestors : r.declaring ∈ u.ancestors c.declaring
  chain : r.overridden = []
  heading : r.heading = c.heading
  isVirtual : r = c ∨ r.isVirtual = true ∧ r.isStatic = false

/-- **A chain goes back to a callable on the line.** -/
theorem Reachable.exists_root (hu : u.Reachable) (hk : u.Knows t) (hc : c ∈ u.callables t) :
    ∃ r, u.RootOf c r := by
  induction t using hu.bases_induction generalizing c with
  | step t ih =>
    obtain ⟨hown, -⟩ := hu.mem_ownCallables_declaring hk hc
    cases hu.linked hk hc with
    | starts own chain =>
      exact ⟨c, (Method.root_of_nil chain).symm, hown, List.mem_cons_self, chain, rfl, .inl rfl⟩
    | continues s n own hn heading chain =>
      have hks := hu.knows_of_mem_bases hn.mem_bases
      obtain ⟨r, hr⟩ := ih s hn.mem_bases hks hn.mem_callables
      have hns := (hu.mem_ownCallables_declaring hks hn.mem_callables).2
      have hrt : r.declaring ∈ u.ancestors c.declaring := by
        rw [own]
        exact mem_ancestors_of_mem_bases (hu.mem_bases_of_mem_ancestors hn.mem_bases
          (hu.ancestors_subset_ancestors hns hr.mem_ancestors))
      refine ⟨r, hr.root.trans (Method.root_of_overriding chain).symm, hr.own, hrt, hr.chain,
        hr.heading.trans heading, .inr ?_⟩
      rcases hr.isVirtual with rfl | h
      · exact ⟨hn.isVirtual, hn.isStatic⟩
      · exact h
    | inherits s hs =>
      exact ih s hs.mem_bases (hu.knows_of_mem_bases hs.mem_bases) hs.mem_callables

/-- Chains of one root go back to one callable. -/
theorem Reachable.rootOf_eq (hu : u.Reachable) (hk : u.Knows t) (hc : c ∈ u.callables t)
    {r r' : Method β} (hr : u.RootOf c r) (hr' : u.RootOf n r') (h : c.root.id = n.root.id) :
    r = r' := by
  have hid : r.id = r'.id := by
    rw [← hr.root, ← hr'.root] at h
    exact h
  have hdecl : r.declaring = r'.declaring := congrArg MemberId.declaring hid
  have hkc := hu.knows_of_mem_ancestors hk (hu.mem_ownCallables_declaring hk hc).2
  have hkr := hu.knows_of_mem_ancestors hkc hr.mem_ancestors
  exact hu.eq_of_id hkr hr.own (hdecl ▸ hr'.own) hid

/-- Callables of one root have one heading. -/
theorem Reachable.heading_eq_of_root (hu : u.Reachable) (hks : u.Knows s) (hkt : u.Knows t)
    (hm : m ∈ u.callables s) (hn : n ∈ u.callables t) (h : m.root.id = n.root.id) :
    m.heading = n.heading := by
  obtain ⟨r, hr⟩ := hu.exists_root hks hm
  obtain ⟨r', hr'⟩ := hu.exists_root hkt hn
  obtain rfl := hu.rootOf_eq hks hm hr hr' h
  exact hr.heading.symm.trans hr'.heading

/-- **Of two callables of one root, the lower one overrides the other**, unless they are the
same. -/
theorem Reachable.eq_or_overrides (hu : u.Reachable) (hk : u.Knows t) (hc : c ∈ u.callables t)
    (ha : a ∈ u.ancestors t) (hm : m ∈ u.ownCallables a) (hv : m.isVirtual = true)
    (hs : m.isStatic = false) (hroot : c.root.id = m.root.id) : c = m ∨ c.overrides m = true := by
  induction t using hu.bases_induction generalizing c with
  | step t ih =>
    have hka := hu.knows_of_mem_ancestors hk ha
    obtain ⟨hma, hmd⟩ := mem_ownCallables.mp hm
    have hhead := hu.heading_eq_of_root hk hka hc hma hroot
    rcases mem_ancestors_iff.mp ha with rfl | ha
    · exact .inl (hu.eq_of_heading hk hc hma hhead)
    -- the other callable lies above the type, hence at or above what this one continues
    cases hu.linked hk hc with
    | starts own chain =>
      obtain ⟨r, hr⟩ := hu.exists_root hka hma
      have hid : r.id = c.id := by
        refine (congrArg MethodDecl.id hr.root).trans ?_
        rw [← hroot, Method.root_of_nil chain]
      have hrt : r.declaring = t := (congrArg MemberId.declaring hid).trans own
      have hup := hr.mem_ancestors
      rw [hrt, hmd] at hup
      exact absurd hup (hu.not_mem_ancestors_of_mem_bases ha)
    | continues s n own hn heading chain =>
      have hks := hu.knows_of_mem_bases hn.mem_bases
      have has := hn.above a ha m hm hv hs (hhead.symm.trans heading.symm)
      rw [Method.root_of_overriding chain] at hroot
      exact .inr (Method.overrides_of_overriding chain
        (ih s hn.mem_bases hks hn.mem_callables has hroot))
    | inherits s hs' =>
      have hks := hu.knows_of_mem_bases hs'.mem_bases
      have has := hs'.above a ha m hm hv hs hhead.symm
      exact ih s hs'.mem_bases hks hs'.mem_callables has hroot

/-- What a type has of a root is declared at or below every virtual instance callable of the root on
its line. -/
theorem Reachable.mem_ancestors_of_root (hu : u.Reachable) (hk : u.Knows t)
    (hc : c ∈ u.callables t) (ha : a ∈ u.ancestors t) (hm : m ∈ u.ownCallables a)
    (hv : m.isVirtual = true) (hs : m.isStatic = false) (hroot : c.root.id = m.root.id) :
    a ∈ u.ancestors c.declaring := by
  have hka := hu.knows_of_mem_ancestors hk ha
  rw [← (mem_ownCallables.mp hm).2]
  rcases hu.eq_or_overrides hk hc ha hm hv hs hroot with rfl | hover
  · exact List.mem_cons_self
  · exact mem_ancestors_of_mem_bases (hu.above_of_overrides hk hc hka hm hover).mem_bases

end Universe
end Reflection
