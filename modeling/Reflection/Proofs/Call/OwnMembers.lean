import Reflection.Proofs.Call.Activation
import Reflection.Proofs.Call.Bound
import Reflection.Proofs.Snapshot.Coherence
import Reflection.Proofs.World.Typing

/-!
# Proofs/Call/OwnMembers — the members of a type and its instances

    what a snapshot shows  ──Taken──▸  declared on the line of its type
                                             │
    an instance that the type accepts  ──────┴──▸  is no wrong target for any of it   (Serves)

Three tests ask whether a member belongs to a target: methods ask for a subtype of the declaring
type, fields of classes too, and fields of structures for that very structure.  A snapshot shows
what is declared on the line of its type, so whatever the type accepts passes the test of methods.
It passes that of fields as well if it is what its type says, an object over a class and a structure
over a structure type.  Interfaces have no instance fields, so there only methods are asked for.
-/

namespace Reflection

variable {β α γ : Type}

/-! ## Errors that blame the target -/

/-- Whether an error says that there is no target, or not the right one. -/
def EngineError.blamesTarget : EngineError → Bool
  | .targetRequired _ | .wrongTarget .. => true
  | _ => false

/-- **A suitable target**: if something fails, it is for another reason. -/
structure Suits (x : Except EngineError α) : Prop where
  blames : ∀ e, x = .error e → e.blamesTarget = false

namespace Suits

theorem ok (a : α) : Suits (.ok a : Except EngineError α) where
  blames e h := by cases h

theorem error {e : EngineError} (h : e.blamesTarget = false) :
    Suits (.error e : Except EngineError α) where
  blames := by
    rintro _ ⟨⟩
    exact h

theorem bind {x : Except EngineError α} {f : α → Except EngineError γ} (hx : Suits x)
    (hf : ∀ a, Suits (f a)) : Suits (x >>= f) where
  blames e h := by
    rcases bind_eq_error.mp h with h | ⟨a, -, h⟩
    · exact hx.blames e h
    · exact (hf a).blames e h

theorem map {x : Except EngineError α} (f : α → γ) (hx : Suits x) : Suits (x.map f) where
  blames e h := hx.blames e (map_eq_error.mp h)

/-- What code raises blames no target: it is wrapped. -/
theorem raised (x : Except Failure α) (member : String) :
    Suits (x.mapError (.invocationRaised member)) where
  blames e h := by
    rcases x with cause | a
    · obtain rfl := Except.error.inj h
      rfl
    · cases h

end Suits

/-- Arguments that do not bind are no fault of the target. -/
theorem Binding.suits_plan (u : Universe β) (member : String) (ps : List Parameter)
    (args : List Value) : Suits (plan u member ps args) where
  blames e h := by
    rcases plan_eq_error h with rfl | ⟨t, v, -, rfl⟩
    · rfl
    · rfl

/-! ### Calls and accesses -/

theorem Value.isNull_eq_false {v : Value} (h : v ≠ .null) : v.isNull = false :=
  Bool.eq_false_iff.mpr (mt isNull_iff.mp h)

/-- Whether a method may be called on a value: it is of a type below the declaring one. -/
def Method.FitsTarget (m : Method β) (u : Universe β) (v : Value) : Prop :=
  ∃ r, v.runtimeType? = some r ∧ u.isSubtype r m.declaring = true

namespace Method

variable {m : Method β} {u : Universe β} {w : World β} {v : Value}

theorem FitsTarget.suits_select (h : m.FitsTarget u v) : Suits (m.select u v) := by
  obtain ⟨r, hr, hsub⟩ := h
  rw [select, hr]
  dsimp only
  rw [if_pos hsub]
  split_ifs
  exacts [.error rfl, .ok _, .ok _]

/-- **A call on a fitting target does not blame it.** -/
theorem FitsTarget.suits_invoke (h : m.FitsTarget w.types v) (run : Evaluator β)
    (args : List Value) : Suits (m.invoke run v args w).result := by
  have hprepare : Suits (m.prepare w.types v args) :=
    h.suits_select.bind fun _ => (Binding.suits_plan ..).bind fun _ => .ok _
  rw [invoke]
  cases hready : m.prepare w.types v args with
  | error e => exact .error (hprepare.blames e hready)
  | ok ready => exact .raised _ m.name

end Method

namespace Property

variable {p : Property β} {w : World β} {v : Value}

theorem suits_accessor (hv : v ≠ .null) (p : Property β) (kind : AccessorKind) :
    Suits (p.accessor kind v) := by
  unfold accessor
  rw [Value.isNull_eq_false hv, Bool.and_false, if_neg Bool.false_ne_true]
  split
  exacts [.error rfl, .ok _]

variable (hv : v ≠ .null) (h : ∀ kind m, p.accessor? kind = some m → m.FitsTarget w.types v)

include hv h

theorem suits_read (run : Evaluator β) : Suits (p.read run w v).1 := by
  rw [read]
  cases hm : p.accessor .getter v with
  | error e => exact .error ((suits_accessor hv p _).blames e hm)
  | ok m => exact (h _ m (accessor?_of_accessor hm)).suits_invoke run []

theorem suits_write (run : Evaluator β) (x : Value) : Suits (p.write run w v x).result := by
  rw [write]
  cases hm : p.accessor .setter v with
  | error e => exact .error ((suits_accessor hv p _).blames e hm)
  | ok m => exact ((h _ m (accessor?_of_accessor hm)).suits_invoke run [x]).map _

end Property

namespace Field

variable {f : Field} {u : Universe β} {w : World β} {v : Value}

theorem checkTarget_of_ownedBy (h : f.ownedBy u v = true) : f.checkTarget u v = .ok () := by
  have hv : v ≠ .null := by
    rintro rfl
    cases h
  rw [checkTarget, Value.isNull_eq_false hv, if_neg Bool.false_ne_true, if_pos h]

theorem suits_read (h : f.isStatic = false → f.ownedBy w.types v = true) :
    Suits (f.read w v) := by
  rw [read]
  cases f.constant? with
  | some x => exact .ok x
  | none =>
    cases hs : f.isStatic with
    | true => exact .ok _
    | false =>
      rw [checkTarget_of_ownedBy (h hs)]
      exact .ok _

theorem suits_checkWrite (h : f.isStatic = false → f.ownedBy u v = true) (x : Value) :
    Suits (f.checkWrite u v x) := by
  have hvalue : Suits (f.checkValue u x) := by
    unfold checkValue
    split_ifs
    exacts [.ok _, .error rfl]
  rw [checkWrite]
  cases f.isLiteral with
  | true => exact .error rfl
  | false =>
    cases hs : f.isStatic with
    | true => exact hvalue
    | false =>
      rw [checkTarget_of_ownedBy (h hs)]
      exact hvalue

theorem suits_write (h : f.isStatic = false → f.ownedBy w.types v = true) (x : Value) :
    Suits (f.write w v x : Written β).result := by
  rw [write]
  cases hcheck : f.checkWrite w.types v x with
  | error e => exact .error ((suits_checkWrite h x).blames e hcheck)
  | ok _ =>
    dsimp only
    split_ifs
    exacts [.ok _, .ok _]

end Field

/-! ## Instances -/

theorem TypeRef.exists_of_hasKind {k : DeclaredKind} {t : TypeRef} (h : t.hasKind k = true) :
    ∃ d, t = .declared d ∧ d.kind = k := by
  cases t with
  | declared d => exact ⟨d, rfl, of_decide_eq_true h⟩
  | _ => cases h

/-- **What a value is by its type**: the type is known, an object is over a class, a structure over
a structure type, and a named value over an enumeration. -/
structure Value.WellFormed (u : Universe β) (v : Value) : Prop where
  knows : ∀ t, v.runtimeType? = some t → u.Knows t
  object : ∀ r, v = .object r → r.type.isClass = true
  struct : ∀ t slots, v = .struct t slots → t.isStruct = true
  enum : ∀ t raw, v = .enum t raw → t.isEnum = true

theorem Value.WellFormed.mono {u w : Universe β} {v : Value} (h : v.WellFormed u)
    (hgrown : u.Extends w) : v.WellFormed w :=
  { h with knows := fun t ht => hgrown.knows (h.knows t ht) }

namespace Universe

variable {u w : Universe β} {t a r : TypeRef} {f : Field} {m : Method β} {v : Value}

/-- What a type that is not nullable accepts beside null. -/
theorem accepts_iff_exists (hv : v ≠ .null) (ht : t.isNullable = false) :
    u.accepts t v = true ↔ ∃ r, v.runtimeType? = some r ∧ u.isSubtype r t = true := by
  cases t <;> cases v <;> simp_all [accepts, TypeRef.isNullable, Value.runtimeType?]

/-- A type takes its well-formed instances. -/
theorem accepts_own (hform : v.WellFormed u) (h : v.runtimeType? = some t) :
    u.accepts t v = true := by
  have hv : v ≠ .null := by
    rintro rfl
    cases h
  have ht : t.isNullable = false := by
    have hclass := hform.object
    have hstruct := hform.struct
    have henum := hform.enum
    cases t with
    | nullable t =>
      cases v <;> simp_all [Value.runtimeType?, TypeRef.isClass, TypeRef.isStruct,
        TypeRef.isEnum, TypeRef.hasKind]
    | _ => rfl
  exact (accepts_iff_exists hv ht).mpr ⟨t, h, isSubtype_self u t⟩

/-- Acceptance goes by the type of a value. -/
theorem accepts_congr {x : Value} (h : x.runtimeType? = v.runtimeType?) :
    u.accepts t x = u.accepts t v := by
  have hnull : x = .null ↔ v = .null := by
    rw [← Value.runtimeType?_eq_none, ← Value.runtimeType?_eq_none, h]
  by_cases hv : v = .null
  · rw [hv, hnull.mpr hv]
  have hx : x ≠ .null := mt hnull.mp hv
  induction t with
  | nullable t ih =>
    rw [accepts_nullable, accepts_nullable, ih, Value.isNull_eq_false hx,
      Value.isNull_eq_false hv]
  | _ =>
    rw [Bool.eq_iff_iff, accepts_iff_exists hx rfl, accepts_iff_exists hv rfl, h]

/-- What a type with a member on its line accepts is below the type that declares the member. -/
theorem Reachable.exists_below (hu : u.Reachable) (ha : a ∈ u.ancestors t)
    (ht : t.isNullable = false) (hv : v ≠ .null) (hacc : u.accepts t v = true) :
    ∃ r, v.runtimeType? = some r ∧ u.isSubtype r a = true := by
  obtain ⟨r, hr, hsub⟩ := (accepts_iff_exists hv ht).mp hacc
  exact ⟨r, hr, hu.isSubtype_trans hsub (hu.isSubtype_of_mem_ancestors ha)⟩

/-- A nullable type has nobody above it and declares nothing. -/
theorem isNullable_eq_false {μ : Type} {x : μ} (members : Definition β → List μ)
    (hmembers : members { flags := { isSealed := true } } = []) (ha : a ∈ u.ancestors t)
    (hx : x ∈ members (u.definition a)) : t.isNullable = false := by
  cases t with
  | nullable t =>
    obtain rfl := List.mem_singleton.mp ha
    have hdefinition : u.definition (.nullable t) = { flags := { isSealed := true } } := rfl
    simp [hdefinition, hmembers] at hx
  | _ => rfl

/-- **An instance fits the methods and accessors on the line of its type.** -/
theorem Reachable.fitsTarget (hu : u.Reachable) (hk : u.Knows t) (ha : a ∈ u.ancestors t)
    (hm : m ∈ u.callables a) (ht : t.isNullable = false) (hv : v ≠ .null)
    (hacc : u.accepts t v = true) : m.FitsTarget u v := by
  obtain ⟨-, hd⟩ := hu.mem_ownCallables_declaring (hu.knows_of_mem_ancestors hk ha) hm
  exact hu.exists_below (hu.ancestors_subset_ancestors ha hd) ht hv hacc

/-! ### Instance fields -/

/-- Instance fields are declared by classes and structures. -/
theorem Reachable.declaring_of_instance_field (hu : u.Reachable) (hf : f ∈ u.fields t)
    (hs : f.isStatic = false) :
    (∃ d, f.declaring = .declared d) ∧
      (f.declaring.isClass = true ∨ f.declaring.isStruct = true) := by
  obtain ⟨v, b, c, ho, -, hf, hd⟩ := hu.exists_origin_of_field hf
  obtain ⟨base?, hp⟩ := ho.exists_passes
  obtain ⟨g, hg, -, -, hgs, -⟩ := Blueprint.exists_spec _ _ (hp.fields ▸ hf)
  obtain ⟨taken, hc⟩ := Blueprint.exists_checkField hp.checked hg
  have hw := (Blueprint.checkField_eq_ok hc).2.2.2 (hgs ▸ hs)
  rw [hd]
  refine ⟨⟨b.target, rfl⟩, ?_⟩
  rcases hkind : b.target.kind <;>
    simp_all [Blueprint.isWithoutInstances, Blueprint.self, TypeRef.isClass, TypeRef.isStruct,
      TypeRef.isInterface, TypeRef.isEnum, TypeRef.hasKind]

/-- Only a class has a base other than the root. -/
theorem Reachable.isClass_of_mem_bases_ne (hu : u.Reachable) (hk : u.Knows t)
    (ha : a ∈ (u.definition t).bases) (hne : a ≠ .object) : t.isClass = true := by
  obtain ⟨b, hb, -⟩ := hu.mem_bases ha
  rcases hu.base?_cases hb with ⟨-, -, hbases⟩ | ⟨v, bp, c, -, hresolve, -, -, hself⟩
  · exact absurd (by simpa [hbases] using ha) hne
  · rw [hself hk]
    exact (Blueprint.mayDerive_of_resolveBase hresolve).self_isClass

/-- **Below a type with instance fields** there are classes, or there is that type alone. -/
theorem Reachable.isClass_or_eq (hu : u.Reachable) (hk : u.Knows r) (hf : f ∈ u.fields t)
    (hs : f.isStatic = false) (h : u.isSubtype r f.declaring = true) :
    r.isClass = true ∨ r = f.declaring := by
  obtain ⟨⟨d, hd⟩, -⟩ := hu.declaring_of_instance_field hf hs
  rcases mem_ancestors_iff.mp (hu.declaring_mem_ancestors hf hs h) with h | h
  · exact .inr h.symm
  · exact .inl (hu.isClass_of_mem_bases_ne hk h (by simp [hd]))

/-- **A well-formed instance holds the fields on the line of its type.** -/
theorem Reachable.ownedBy (hu : u.Reachable) (hk : u.Knows t) (ha : a ∈ u.ancestors t)
    (hf : f ∈ u.fields a) (hs : f.isStatic = false) (hv : v ≠ .null) (hform : v.WellFormed u)
    (hacc : u.accepts t v = true) : f.ownedBy u v = true := by
  have hd := hu.declaring_of_mem_fields (hu.knows_of_mem_ancestors hk ha) hf
  have ht := isNullable_eq_false Definition.fields rfl ha hf
  obtain ⟨r, hr, hsub⟩ := hu.exists_below ha ht hv hacc
  rw [← hd] at hsub
  have hkinds := (hu.declaring_of_instance_field hf hs).2
  have hclass := hu.isClass_or_eq (hform.knows r hr) hf hs hsub
  -- a class has objects, and a structure has structures
  cases v with
  | object o =>
    obtain rfl := Option.some.inj hr
    exact hsub
  | struct s slots =>
    obtain rfl := Option.some.inj hr
    obtain ⟨d, rfl, hkind⟩ := TypeRef.exists_of_hasKind (hform.struct s slots rfl)
    rcases hclass with h | h
    · simp [TypeRef.isClass, TypeRef.hasKind, hkind] at h
    · exact decide_eq_true h
  | enum s raw =>
    obtain rfl := Option.some.inj hr
    obtain ⟨d, rfl, hkind⟩ := TypeRef.exists_of_hasKind (hform.enum s raw rfl)
    rcases hclass with h | h
    · simp [TypeRef.isClass, TypeRef.hasKind, hkind] at h
    · simp [← h, TypeRef.isClass, TypeRef.isStruct, TypeRef.hasKind, hkind] at hkinds
  | null => exact absurd rfl hv
  | _ =>
    obtain rfl := Option.some.inj hr
    rcases hclass with h | h
    · simp [TypeRef.isClass, TypeRef.hasKind] at h
    · simp [← h, TypeRef.isClass, TypeRef.isStruct, TypeRef.hasKind] at hkinds

end Universe

/-! ## Snapshots -/

/-- What a provider owes to a snapshot: it lists what is declared on the line of the type. -/
structure Provider.KeepsToLine (p : Provider β) : Prop where
  fields : ∀ {u : Universe β} {t f x}, u.Reachable → u.Knows t → x ∈ p.fields u t f →
    x.declaring ∈ u.ancestors t ∧ x ∈ u.fields x.declaring
  properties : ∀ {u : Universe β} {t f x}, u.Reachable → u.Knows t → x ∈ p.properties u t f →
    x.declaring ∈ u.ancestors t ∧ x ∈ u.properties x.declaring
  methods : ∀ {u : Universe β} {t f x}, u.Reachable → u.Knows t → x ∈ p.methods u t f →
    x.declaring ∈ u.ancestors t ∧ x ∈ u.methods x.declaring

/-- **The reflector keeps to the line.** -/
theorem Provider.keepsToLine_reflector : (reflector : Provider β).KeepsToLine where
  fields {u t f x} hu hk hx := by
    have hx : x ∈ f.collect u.fields (u.ancestors t) := hx
    obtain ⟨a, ha, hxa⟩ := MemberFilter.exists_of_mem_collect hx
    rw [hu.declaring_of_mem_fields (hu.knows_of_mem_ancestors hk ha) hxa]
    exact ⟨ha, hxa⟩
  properties {u t f x} hu hk hx := by
    have hx : x ∈ f.collect u.properties (u.ancestors t) := hx
    obtain ⟨a, ha, hxa⟩ := MemberFilter.exists_of_mem_collect hx
    rw [hu.declaring_of_mem_properties (hu.knows_of_mem_ancestors hk ha) hxa]
    exact ⟨ha, hxa⟩
  methods {u t f x} hu hk hx := by
    have hx : x ∈ f.collect u.methods (u.ancestors t) := hx
    obtain ⟨a, ha, hxa⟩ := MemberFilter.exists_of_mem_collect hx
    rw [hu.declaring_of_mem_methods (hu.knows_of_mem_ancestors hk ha) hxa]
    exact ⟨ha, hxa⟩

/-- So does the same listing backwards. -/
theorem Provider.KeepsToLine.reversed {p : Provider β} (h : p.KeepsToLine) :
    p.reversed.KeepsToLine where
  fields hu hk hx := h.fields hu hk (List.mem_reverse.mp hx)
  properties hu hk hx := h.properties hu hk (List.mem_reverse.mp hx)
  methods hu hk hx := h.methods hu hk (List.mem_reverse.mp hx)

namespace Universe

variable {u w : Universe β} {t a : TypeRef}

/-- What is above a type stays above it. -/
theorem Extends.mem_ancestors (h : u.Extends w) (ha : a ∈ u.ancestors t) : a ∈ w.ancestors t := by
  rcases mem_ancestors_iff.mp ha with rfl | ha
  · exact mem_ancestors_self w a
  · refine mem_ancestors_of_mem_bases ?_
    rw [h.definition_of_mem Definition.bases rfl ha]
    exact ha

/-- What a type declares it declares for ever. -/
theorem Extends.mem_of_mem {μ : Type} {x : μ} (h : u.Extends w) (members : Definition β → List μ)
    (hmembers : members {} = []) (hx : x ∈ members (u.definition a)) :
    x ∈ members (w.definition a) := by
  rw [h.definition_of_mem members hmembers hx]
  exact hx

end Universe

theorem MethodTable.mem_of_mem_overloads {ms : List (Method β)} {m : Method β} {name : String}
    (h : m ∈ (build ms).overloads name) : m ∈ ms := by
  rw [overloads_build] at h
  exact (visible_sublist ms).subset (List.mem_filter.mp h).1

namespace Snapshot

variable {s : Snapshot β} {u v : Universe β} {w : World β} {a : Accessor β} {m : Method β}
  {x : Value}

/-- **A snapshot of the past**: it was built at some time, by a provider that keeps to the line, of
a type that was known then. -/
def Taken (s : Snapshot β) (u : Universe β) : Prop :=
  ∃ (p : Provider β) (v : Universe β), p.KeepsToLine ∧ v.Reachable ∧ v.Extends u ∧ v.Knows s.type ∧
    s = .build p v s.type s.filter

/-- A snapshot built now is one later on. -/
theorem taken_build {p : Provider β} (hp : p.KeepsToLine) (hv : v.Reachable) (hgrown : v.Extends u)
    {t : TypeRef} (hk : v.Knows t) (f : MemberFilter) : (build p v t f).Taken u :=
  ⟨p, v, hp, hv, hgrown, hk, rfl⟩

namespace Taken

theorem mono (h : s.Taken u) (hgrown : u.Extends v) : s.Taken v := by
  obtain ⟨p, v₀, hp, hv₀, hfrom, hk, hbuilt⟩ := h
  exact ⟨p, v₀, hp, hv₀, hfrom.trans hgrown, hk, hbuilt⟩

theorem knows (h : s.Taken u) : u.Knows s.type := by
  obtain ⟨_, _, -, -, hfrom, hk, -⟩ := h
  exact hfrom.knows hk

/-- Its fields are declared on the line of its type. -/
theorem exists_field (h : s.Taken u) (ha : a ∈ s.fields.members) : ∃ f, a = .field f ∧
    f.declaring ∈ u.ancestors s.type ∧ f ∈ u.fields f.declaring := by
  obtain ⟨p, v, hp, hv, hfrom, hk, hbuilt⟩ := h
  rw [hbuilt] at ha
  obtain ⟨f, hf, rfl⟩ := List.mem_map.mp (MemberCollection.mem_of_mem_build ha)
  obtain ⟨hd, hf⟩ := hp.fields hv hk hf
  exact ⟨f, rfl, hfrom.mem_ancestors hd, hfrom.mem_of_mem Definition.fields rfl hf⟩

/-- So are its properties. -/
theorem exists_property (h : s.Taken u) (ha : a ∈ s.properties.members) : ∃ p, a = .property p ∧
    p.declaring ∈ u.ancestors s.type ∧ p ∈ u.properties p.declaring := by
  obtain ⟨p, v, hp, hv, hfrom, hk, hbuilt⟩ := h
  rw [hbuilt] at ha
  obtain ⟨q, hq, rfl⟩ := List.mem_map.mp (MemberCollection.mem_of_mem_build ha)
  obtain ⟨hd, hq⟩ := hp.properties hv hk hq
  exact ⟨q, rfl, hfrom.mem_ancestors hd, hfrom.mem_of_mem Definition.properties rfl hq⟩

/-- And so are its methods. -/
theorem mem_methods (h : s.Taken u) {name : String} (hm : m ∈ s.methods.overloads name) :
    m.declaring ∈ u.ancestors s.type ∧ m ∈ u.methods m.declaring := by
  obtain ⟨p, v, hp, hv, hfrom, hk, hbuilt⟩ := h
  rw [hbuilt] at hm
  obtain ⟨hd, hm⟩ := hp.methods hv hk (MethodTable.mem_of_mem_overloads hm)
  exact ⟨hfrom.mem_ancestors hd, hfrom.mem_of_mem Definition.methods rfl hm⟩

end Taken

/-- **A snapshot serves an instance**: no access and no call of a member of it blames the
instance. -/
structure Serves (s : Snapshot β) (run : Evaluator β) (w : World β) (x : Value) : Prop where
  get : ∀ a, a ∈ s.fields.members ∨ a ∈ s.properties.members → Suits (a.read run w x).1
  set : ∀ a, a ∈ s.fields.members ∨ a ∈ s.properties.members → ∀ y,
    Suits (a.write run w x y).result
  invoke : ∀ name, ∀ m ∈ s.methods.overloads name, ∀ args, Suits (m.invoke run x args w).result

/-- **A snapshot serves the instances of its type.** -/
theorem Taken.serves (h : s.Taken w.types) (hu : w.types.Reachable) (hform : x.WellFormed w.types)
    (hx : x ≠ .null) (hacc : w.types.accepts s.type x = true) (run : Evaluator β) :
    s.Serves run w x := by
  have owned {f : Field} (hd : f.declaring ∈ w.types.ancestors s.type)
      (hf : f ∈ w.types.fields f.declaring) (hs : f.isStatic = false) :
      f.ownedBy w.types x = true := hu.ownedBy h.knows hd hf hs hx hform hacc
  have fits {p : Property β} (hd : p.declaring ∈ w.types.ancestors s.type)
      (hp : p ∈ w.types.properties p.declaring) (kind : AccessorKind) (m : Method β)
      (hm : p.accessor? kind = some m) : m.FitsTarget w.types x :=
    hu.fitsTarget h.knows hd (Universe.mem_callables_of_accessor hp hm)
      (Universe.isNullable_eq_false Definition.properties rfl hd hp) hx hacc
  constructor
  case get =>
    rintro a (ha | ha)
    · obtain ⟨f, rfl, hd, hf⟩ := h.exists_field ha
      exact Field.suits_read (owned hd hf)
    · obtain ⟨p, rfl, hd, hp⟩ := h.exists_property ha
      exact Property.suits_read hx (fits hd hp) run
  case set =>
    rintro a (ha | ha) y
    · obtain ⟨f, rfl, hd, hf⟩ := h.exists_field ha
      exact Field.suits_write (owned hd hf) y
    · obtain ⟨p, rfl, hd, hp⟩ := h.exists_property ha
      exact Property.suits_write hx (fits hd hp) run y
  case invoke =>
    intro name m hm args
    obtain ⟨hd, hm⟩ := h.mem_methods hm
    refine Method.FitsTarget.suits_invoke ?_ run args
    exact hu.fitsTarget h.knows hd (Universe.mem_callables_of_method hm)
      (Universe.isNullable_eq_false Definition.methods rfl hd hm) hx hacc

end Snapshot

end Reflection
