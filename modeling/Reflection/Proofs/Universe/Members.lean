import Reflection.Call.Error
import Reflection.Proofs.Universe.Lines

/-!
# Proofs/Universe/Members — what defining a type makes of its members

    NextMethod, NextProperty, NextConstructor  ──Grown──▸  the members of a compiled type
                                               ──Origin──▸  the members of every known type

Compiling builds the members of a type one by one, each beside those built before it (`Grown`): they
are numbered in order, no two of them are alike, and an override continues what the search on the
line of bases has found.  The search looks at defined types only, so it finds the same ever after.
-/

namespace Reflection

variable {β : Type}

/-! ## Accessors by kind -/

/-- What an accessor is to its type. -/
def AccessorKind.role : AccessorKind → MemberRole
  | getter => .getter
  | setter => .setter

/-- The name of an accessor of a property. -/
def AccessorKind.memberName (kind : AccessorKind) (property : String) : String :=
  match kind with
  | getter => s!"get_{property}"
  | setter => s!"set_{property}"

/-- The parameters of an accessor of a property of a type. -/
def AccessorKind.parameters (type : TypeRef) : AccessorKind → List Parameter
  | getter => []
  | setter => [⟨"value", type, .plain⟩]

/-- The accessor of a kind. -/
def Property.accessor? (p : Property β) : AccessorKind → Option (Method β)
  | .getter => p.getter?
  | .setter => p.setter?

theorem Property.mem_accessors {p : Property β} {m : Method β} :
    m ∈ p.accessors ↔ ∃ kind, p.accessor? kind = some m := by
  rw [accessors, List.mem_append, Option.mem_toList, Option.mem_toList]
  refine ⟨fun h => h.elim (fun h => ⟨.getter, h⟩) fun h => ⟨.setter, h⟩, ?_⟩
  rintro ⟨⟨⟩, h⟩
  exacts [.inl h, .inr h]

/-! ## Lists that grow by one -/

/-- The lists that come about by adding members at the end, each of which suits those before it. -/
inductive Grown {α : Type} (next : List α → α → Prop) : List α → Prop
  | nil : Grown next []
  | concat {as : List α} {a : α} (has : Grown next as) (ha : next as a) : Grown next (as ++ [a])

namespace Grown

variable {α : Type} {next : List α → α → Prop} {as : List α} {a : α}

/-- A member suits those before it. -/
theorem next_of_getElem? (h : Grown next as) {i : Nat} (hi : as[i]? = some a) :
    next (as.take i) a := by
  induction h with
  | nil => simp at hi
  | @concat as b has hb ih =>
    rcases Nat.lt_trichotomy i as.length with hlt | rfl | hgt
    · rw [List.getElem?_append_left hlt] at hi
      rw [List.take_append_of_le_length (Nat.le_of_lt hlt)]
      exact ih hi
    · obtain rfl : b = a := by simpa using hi
      rwa [List.take_left]
    · rw [List.getElem?_eq_none (by simp; omega)] at hi
      simp at hi

theorem exists_next (h : Grown next as) (ha : a ∈ as) :
    ∃ i, as[i]? = some a ∧ next (as.take i) a := by
  obtain ⟨i, hi⟩ := List.mem_iff_getElem?.mp ha
  exact ⟨i, hi, h.next_of_getElem? hi⟩

theorem mono (h : Grown next as) {next' : List α → α → Prop}
    (hn : ∀ {before x}, next before x → next' before x) : Grown next' as := by
  induction h with
  | nil => exact .nil
  | concat has ha ih => exact .concat ih (hn ha)

/-- If no member is like one before it, then members that are alike are the same. -/
theorem eq_of_like (h : Grown next as) {like : α → α → Bool}
    (hnext : ∀ {before x}, next before x → ∀ y ∈ before, like y x = false)
    (hsymm : ∀ {x y}, like x y = true → like y x = true) {b : α} (ha : a ∈ as) (hb : b ∈ as)
    (hab : like a b = true) : a = b := by
  induction h with
  | nil => simp at ha
  | @concat as c has hc ih =>
    simp only [List.mem_append, List.mem_singleton] at ha hb
    rcases ha with ha | rfl <;> rcases hb with hb | rfl
    · exact ih ha hb
    · simp [hnext hc a ha] at hab
    · simpa [hnext hc b hb] using hsymm hab
    · rfl

/-- What each member is to those before it, any two of them are. -/
theorem pairwise (h : Grown next as) {R : α → α → Prop}
    (hnext : ∀ {before x}, next before x → ∀ y ∈ before, R y x) : as.Pairwise R := by
  induction h with
  | nil => exact .nil
  | @concat as a has ha ih =>
    refine List.pairwise_append.mpr ⟨ih, List.pairwise_singleton R a, fun y hy x hx => ?_⟩
    obtain rfl := List.mem_singleton.mp hx
    exact hnext ha y hy

end Grown

/-! ## Lists that are built one by one -/

section Each

variable {ε σ α γ : Type} {one : List α → σ → Except ε α} {built as : List α} {ss : List σ}

/-- Building members one by one, each beside those built before it, until one fails. -/
def compileEach (one : List α → σ → Except ε α) : List α → List σ → Except ε (List α)
  | built, [] => .ok built
  | built, s :: ss => do
    let a ← one built s
    compileEach one (built ++ [a]) ss

theorem grown_compileEach {next : List α → α → Prop}
    (hone : ∀ {before s a}, one before s = .ok a → next before a) (hb : Grown next built)
    (h : compileEach one built ss = .ok as) : Grown next as := by
  induction ss generalizing built with
  | nil =>
    obtain rfl := Except.ok.inj h
    exact hb
  | cons s ss ih =>
    obtain ⟨a, ha, h⟩ := bind_eq_ok.mp h
    exact ih (.concat hb (hone ha)) h

/-- What was asked for is built, in order, and nothing else. -/
theorem forall₂_compileEach (h : compileEach one built ss = .ok as) :
    ∃ new, as = built ++ new ∧
      List.Forall₂ (fun s a => ∃ before, one before s = .ok a) ss new := by
  induction ss generalizing built with
  | nil => exact ⟨[], by simpa using (Except.ok.inj h).symm, .nil⟩
  | cons s ss ih =>
    obtain ⟨a, ha, h⟩ := bind_eq_ok.mp h
    obtain ⟨new, rfl, hnew⟩ := ih h
    exact ⟨a :: new, by simp, .cons ⟨built, ha⟩ hnew⟩

/-- The results of a sequence of steps, each of one of them. -/
theorem forall₂_of_mapM {f : σ → Except ε γ} {cs : List γ} (h : ss.mapM f = .ok cs) :
    List.Forall₂ (fun s c => f s = .ok c) ss cs := by
  induction ss generalizing cs with
  | nil =>
    obtain rfl := Except.ok.inj h
    exact .nil
  | cons s ss ih =>
    rw [List.mapM_cons] at h
    obtain ⟨c, hc, h⟩ := bind_eq_ok.mp h
    obtain ⟨cs', hcs, h⟩ := bind_eq_ok.mp h
    obtain rfl := Except.ok.inj h
    exact .cons hc (ih hcs)

theorem exists_of_forall₂_left {R : σ → γ → Prop} {cs : List γ} {s : σ}
    (h : List.Forall₂ R ss cs) (hs : s ∈ ss) : ∃ c ∈ cs, R s c := by
  induction h with
  | nil => simp at hs
  | cons hr _ ih =>
    rcases List.mem_cons.mp hs with rfl | hs
    · exact ⟨_, List.mem_cons_self, hr⟩
    · obtain ⟨c, hc, hr⟩ := ih hs
      exact ⟨c, List.mem_cons_of_mem _ hc, hr⟩

theorem exists_of_forall₂_right {R : σ → γ → Prop} {cs : List γ} {c : γ}
    (h : List.Forall₂ R ss cs) (hc : c ∈ cs) : ∃ s ∈ ss, R s c :=
  exists_of_forall₂_left (R := flip R) h.flip hc

end Each

namespace Blueprint

variable {u v : Universe β} {b : Blueprint β} {line : List TypeRef}

/-! ## Parameters -/

theorem isArray_of_compileParameter {member : String} {spec : ParameterSpec} {p : Parameter}
    (h : compileParameter member spec = .ok p) (hv : p.isVariadic = true) :
    p.type.isArray = true := by
  unfold compileParameter at h
  dsimp only at h
  split at h
  · simp at h
  · split_ifs at h with ha
    obtain rfl := Except.ok.inj h
    exact ha
  · obtain rfl := Except.ok.inj h
    simp [Parameter.isVariadic] at hv
  · obtain rfl := Except.ok.inj h
    simp [Parameter.isVariadic] at hv

theorem type_of_compileParameter {member : String} {spec : ParameterSpec} {p : Parameter}
    (h : compileParameter member spec = .ok p) : p.type = spec.type := by
  unfold compileParameter at h
  dsimp only at h
  split at h
  · simp at h
  · split_ifs at h
    obtain rfl := Except.ok.inj h
    rfl
  · obtain rfl := Except.ok.inj h
    rfl
  · obtain rfl := Except.ok.inj h
    rfl

theorem exists_of_compileParameters {member : String} {specs : List ParameterSpec}
    {ps : List Parameter} (h : compileParameters member specs = .ok ps) {p : Parameter}
    (hp : p ∈ ps) : ∃ spec ∈ specs, compileParameter member spec = .ok p := by
  obtain ⟨built, hb, h⟩ := bind_eq_ok.mp h
  split at h
  · simp at h
  · obtain rfl := Except.ok.inj h
    obtain ⟨spec, hspec, hone⟩ := exists_of_forall₂_right (forall₂_of_mapM hb) hp
    exact ⟨spec, hspec, hone⟩

/-- **A variadic parameter is an array.** -/
theorem isArray_of_compileParameters {member : String} {specs : List ParameterSpec}
    {ps : List Parameter} (h : compileParameters member specs = .ok ps) {p : Parameter}
    (hp : p ∈ ps) (hv : p.isVariadic = true) : p.type.isArray = true := by
  obtain ⟨spec, -, hspec⟩ := exists_of_compileParameters h hp
  exact isArray_of_compileParameter hspec hv

/-! ## Methods -/

/-- What a method of a type goes back to: nothing, or what the search on the line finds for it. -/
def ContinuesMethod (u : Universe β) (line : List TypeRef) (m : Method β) : Prop :=
  m.overridden = [] ∨
    ∃ n, overriddenMethod? u line m.name m.parameters = some n ∧ m.overridden = overriding n

/-- What compiling makes of a method, after those built before it. -/
structure NextMethod (u : Universe β) (line : List TypeRef) (owner : TypeRef)
    (built : List (Method β)) (m : Method β) : Prop where
  id : m.id = ⟨owner, .method, built.length⟩
  distinct : ∀ n ∈ built, n.sameSignature m = false
  continues : ContinuesMethod u line m
  variadic : ∀ p ∈ m.parameters, p.isVariadic = true → p.type.isArray = true

/-- No member is like one that a check on those before it looks for. -/
theorem forall_eq_false_of_not_any {α : Type} {as : List α} {like : α → Bool}
    (h : ¬as.any like = true) : ∀ a ∈ as, like a = false :=
  fun a ha => Bool.eq_false_iff.mpr fun hl => h (List.any_eq_true.mpr ⟨a, ha, hl⟩)

theorem nextMethod {built : List (Method β)} {spec : MethodSpec β} {m : Method β}
    (h : b.compileMethod u line built spec = .ok m) : NextMethod u line b.self built m := by
  obtain ⟨ps, hps, h⟩ := bind_eq_ok.mp h
  split_ifs at h with hnew ho
  · split at h
    · next n hn =>
      obtain rfl := Except.ok.inj h
      exact ⟨rfl, forall_eq_false_of_not_any hnew, .inr ⟨n, hn, rfl⟩,
        fun p hp => isArray_of_compileParameters hps hp⟩
    · simp at h
  · obtain rfl := Except.ok.inj h
    exact ⟨rfl, forall_eq_false_of_not_any hnew, .inl rfl,
      fun p hp => isArray_of_compileParameters hps hp⟩

theorem compileMethods_eq : b.compileMethods u line = compileEach (b.compileMethod u line) := by
  funext built specs
  induction specs generalizing built with
  | nil => rfl
  | cons spec specs ih => simp only [compileMethods, compileEach, ih]

theorem grown_methods {ms : List (Method β)} {specs : List (MethodSpec β)}
    (h : b.compileMethods u line [] specs = .ok ms) : Grown (NextMethod u line b.self) ms := by
  rw [compileMethods_eq] at h
  exact grown_compileEach nextMethod .nil h

/-! ## Properties -/

/-- An accessor that a property has of its own, over the one it would inherit. -/
structure OwnAccessor (p : Property β) (kind : AccessorKind) (inherited? : Option (Method β))
    (m : Method β) : Prop where
  id : m.id = ⟨p.declaring, kind.role, p.id.index⟩
  name : m.name = kind.memberName p.name
  parameters : m.parameters = kind.parameters p.type
  visibility : m.visibility = p.visibility
  isStatic : m.isStatic = p.isStatic
  isVirtual : m.isVirtual = p.isVirtual
  overridden : m.overridden = (inherited?.map overriding).getD []

/-- A property over the one that it overrides, if any: an accessor that it has not of its own is
that of the overridden one. -/
structure PropertyOver (p : Property β) (base? : Option (Property β)) : Prop where
  overridden : p.overridden = (base?.map fun q => q.toPropertyDecl :: q.overridden).getD []
  accessor : ∀ kind, p.accessor? kind = base?.bind (·.accessor? kind) ∨
    ∃ m, p.accessor? kind = some m ∧ OwnAccessor p kind (base?.bind (·.accessor? kind)) m

/-- Both accessors of a property are compiled in one way. -/
theorem exists_compileAccessor (b : Blueprint β) (index : Nat) (spec : PropertySpec β)
    (base? : Option (Property β)) (kind : AccessorKind) :
    ∃ returns? body?, (b.assembleProperty index spec base?).accessor? kind =
      b.compileAccessor spec kind.role index (kind.memberName spec.name)
        (kind.parameters spec.type) returns? (base?.bind (·.accessor? kind)) body? := by
  cases kind with
  | getter => exact ⟨some spec.type, spec.getter?, rfl⟩
  | setter => exact ⟨none, spec.setter?, rfl⟩

theorem propertyOver_assembleProperty (b : Blueprint β) (index : Nat) (spec : PropertySpec β)
    (base? : Option (Property β)) : PropertyOver (b.assembleProperty index spec base?) base? := by
  refine ⟨rfl, fun kind => ?_⟩
  obtain ⟨returns?, body?, h⟩ := exists_compileAccessor b index spec base? kind
  rw [h]
  cases body? with
  | none => exact .inl rfl
  | some body => exact .inr ⟨_, rfl, rfl, rfl, rfl, rfl, rfl, rfl, rfl⟩

/-- What a property of a type goes back to: nothing, or what the search on the line finds for it. -/
def ContinuesProperty (u : Universe β) (line : List TypeRef) (p : Property β) : Prop :=
  PropertyOver p none ∨
    ∃ q, overriddenProperty? u line p.name = some q ∧ PropertyOver p (some q)

/-- What compiling makes of a property, after those built before it. -/
structure NextProperty (u : Universe β) (line : List TypeRef) (owner : TypeRef)
    (built : List (Property β)) (p : Property β) : Prop where
  id : p.id = ⟨owner, .property, built.length⟩
  distinct : ∀ q ∈ built, (q.name == p.name) = false
  continues : ContinuesProperty u line p

theorem nextProperty {built : List (Property β)} {spec : PropertySpec β} {p : Property β}
    (h : b.compileProperty u line built spec = .ok p) : NextProperty u line b.self built p := by
  unfold compileProperty at h
  split_ifs at h with hnew ho
  · split at h
    · next q hq =>
      obtain rfl := Except.ok.inj h
      exact ⟨rfl, forall_eq_false_of_not_any hnew,
        .inr ⟨q, hq, propertyOver_assembleProperty ..⟩⟩
    · simp at h
  · obtain rfl := Except.ok.inj h
    exact ⟨rfl, forall_eq_false_of_not_any hnew, .inl (propertyOver_assembleProperty ..)⟩

theorem compileProperties_eq :
    b.compileProperties u line = compileEach (b.compileProperty u line) := by
  funext built specs
  induction specs generalizing built with
  | nil => rfl
  | cons spec specs ih => simp only [compileProperties, compileEach, ih]

theorem grown_properties {ps : List (Property β)} {specs : List (PropertySpec β)}
    (h : b.compileProperties u line [] specs = .ok ps) :
    Grown (NextProperty u line b.self) ps := by
  rw [compileProperties_eq] at h
  exact grown_compileEach nextProperty .nil h

/-! ## Constructors -/

/-- What compiling makes of a constructor, after those built before it. -/
structure NextConstructor (owner : TypeRef) (built : List (Constructor β)) (c : Constructor β) :
    Prop where
  id : c.id = ⟨owner, .constructor, built.length⟩
  distinct : ∀ d ∈ built, Parameter.sameShape d.parameters c.parameters = false
  variadic : ∀ p ∈ c.parameters, p.isVariadic = true → p.type.isArray = true

theorem nextConstructor {built : List (Constructor β)} {spec : ConstructorSpec β}
    {c : Constructor β} (h : b.compileConstructor built spec = .ok c) :
    NextConstructor b.self built c := by
  obtain ⟨ps, hps, h⟩ := bind_eq_ok.mp h
  split_ifs at h with hnew
  obtain rfl := Except.ok.inj h
  exact ⟨rfl, forall_eq_false_of_not_any hnew, fun p hp => isArray_of_compileParameters hps hp⟩

theorem compileOwnConstructors_eq :
    b.compileOwnConstructors = compileEach b.compileConstructor := by
  funext built specs
  induction specs generalizing built with
  | nil => rfl
  | cons spec specs ih => simp only [compileOwnConstructors, compileEach, ih]

theorem grown_synthesized (owner : TypeRef) (visibility : Visibility) :
    Grown (NextConstructor owner) [(.synthesized owner visibility : Constructor β)] :=
  .concat .nil ⟨rfl, by simp, by simp [Constructor.synthesized]⟩

theorem grown_constructors {cs : List (Constructor β)} (h : b.compileConstructors = .ok cs) :
    Grown (NextConstructor b.self) cs := by
  unfold compileConstructors at h
  split at h
  · obtain rfl := Except.ok.inj h
    split
    · exact grown_synthesized ..
    · exact .nil
  · split_ifs at h
    rw [compileOwnConstructors_eq] at h
    exact grown_compileEach nextConstructor .nil h

theorem isClass_or_isStruct_of_mem_constructors {cs : List (Constructor β)} {c : Constructor β}
    (h : b.compileConstructors = .ok cs) (hc : c ∈ cs) :
    b.self.isClass = true ∨ b.self.isStruct = true := by
  unfold compileConstructors at h
  split at h
  · obtain rfl := Except.ok.inj h
    by_cases hclass : (b.self.isClass && !b.flags.isStatic) = true
    · exact .inl (Bool.and_eq_true_iff.mp hclass).1
    · rw [if_neg hclass] at hc
      cases hc
  · split_ifs at h with hkind
    rw [← Bool.or_eq_true, ← Bool.not_eq_false]
    exact fun hnone => hkind (by rw [hnone]; rfl)

/-- What a constructor takes was asked for. -/
theorem mem_mentioned_of_mem_constructors {cs : List (Constructor β)} {c : Constructor β}
    {p : Parameter} (h : b.compileConstructors = .ok cs) (hc : c ∈ cs) (hp : p ∈ c.parameters) :
    p.type ∈ b.mentioned := by
  unfold compileConstructors at h
  split at h
  · obtain rfl := Except.ok.inj h
    split at hc
    · obtain rfl := List.mem_singleton.mp hc
      cases hp
    · cases hc
  · split_ifs at h
    rw [compileOwnConstructors_eq] at h
    obtain ⟨new, rfl, hnew⟩ := forall₂_compileEach h
    obtain ⟨spec, hspec, before, hone⟩ := exists_of_forall₂_right hnew hc
    obtain ⟨ps, hps, hone⟩ := bind_eq_ok.mp hone
    split_ifs at hone
    obtain rfl := Except.ok.inj hone
    obtain ⟨asked, hasked, hone⟩ := exists_of_compileParameters hps hp
    have hmem : asked.type ∈ b.constructors.flatMap fun c => c.parameters.map ParameterSpec.type :=
      List.mem_flatMap.mpr ⟨spec, hspec, List.mem_map_of_mem hasked⟩
    simp only [type_of_compileParameter hone, mentioned, List.mem_append, hmem, or_true, true_or]

end Blueprint

namespace Universe

variable {u v : Universe β} {t : TypeRef}

/-! ## The members of a known type -/

/-- A built-in type declares no properties and methods. -/
theorem callables_of_builtin? {x : Definition β} (h : builtin? t = some x) :
    x.properties = [] ∧ x.methods = [] := by
  cases t with
  | primitive p => cases p <;> (obtain rfl := Option.some.inj h; simp)
  | declared d => simp [builtin?] at h
  | _ => obtain rfl := Option.some.inj h; simp

theorem constructors_of_builtin? {x : Definition β} (h : builtin? t = some x) :
    Grown (Blueprint.NextConstructor t) x.constructors := by
  cases t with
  | primitive p => cases p <;> (obtain rfl := Option.some.inj h; exact .nil)
  | declared d => simp [builtin?] at h
  | object | attributeRoot =>
    obtain rfl := Option.some.inj h
    exact Blueprint.grown_synthesized ..
  | _ => obtain rfl := Option.some.inj h; exact .nil

/-- A built-in type with a constructor is a class, and the constructor takes nothing. -/
theorem mem_constructors_of_builtin? {x : Definition β} (h : builtin? t = some x)
    {c : Constructor β} (hc : c ∈ x.constructors) : t.isClass = true ∧ c.parameters = [] := by
  cases t with
  | object | attributeRoot =>
    obtain rfl := List.mem_singleton.mp (Option.some.inj h ▸ hc)
    exact ⟨rfl, rfl⟩
  | primitive p => cases p <;> (rw [← Option.some.inj h] at hc; cases hc)
  | declared d => cases h
  | _ => rw [← Option.some.inj h] at hc; cases hc

/-- Searches that find the same at each type of a line find the same along it. -/
theorem findSome?_congr {α : Type} {line : List TypeRef} {find find' : TypeRef → Option α}
    (h : ∀ a ∈ line, find a = find' a) : line.findSome? find = line.findSome? find' := by
  induction line with
  | nil => rfl
  | cons a line ih =>
    rw [List.findSome?_cons, List.findSome?_cons, h a List.mem_cons_self,
      ih fun x hx => h x (List.mem_cons_of_mem _ hx)]

/-- The line that a blueprint compiles on has defined types only. -/
theorem Origin.isDefined_of_mem {b : Blueprint β} {c : Blueprint.Compiled β} (h : Origin u v b c)
    {a : TypeRef} (ha : a ∈ c.definition.bases) : v.isDefined a = true := by
  obtain ⟨base?, hp⟩ := h.exists_passes
  rw [hp.bases] at ha
  cases base? with
  | none => simp [Blueprint.lineOf] at ha
  | some s =>
    rcases mem_ancestors_iff.mp ha with rfl | ha
    · exact (Blueprint.mayDerive_of_resolveBase hp.resolve).isDefined
    · exact h.reachable.isDefined_of_mem_bases ha

theorem Origin.overriddenMethod?_eq {b : Blueprint β} {c : Blueprint.Compiled β}
    (h : Origin u v b c) :
    Blueprint.overriddenMethod? u c.definition.bases =
      Blueprint.overriddenMethod? v c.definition.bases := by
  funext name ps
  refine findSome?_congr fun a ha => ?_
  rw [methods, methods, h.grown.definition_eq (h.isDefined_of_mem ha)]

theorem Origin.overriddenProperty?_eq {b : Blueprint β} {c : Blueprint.Compiled β}
    (h : Origin u v b c) :
    Blueprint.overriddenProperty? u c.definition.bases =
      Blueprint.overriddenProperty? v c.definition.bases := by
  funext name
  refine findSome?_congr fun a ha => ?_
  rw [properties, properties, h.grown.definition_eq (h.isDefined_of_mem ha)]

/-- **What compiling has made of the methods of a known type.** -/
theorem Reachable.grown_methods (hu : u.Reachable) (hk : u.Knows t) :
    Grown (Blueprint.NextMethod u (u.definition t).bases t) (u.methods t) := by
  rw [methods]
  rcases hu.definition_cases t with hx | hx | ⟨v, b, c, ho, hx, hself⟩
  · rw [hx]
    exact .nil
  · rw [(callables_of_builtin? hx).2]
    exact .nil
  · have hsame := ho.overriddenMethod?_eq
    obtain ⟨base?, hp⟩ := ho.exists_passes
    rw [hx, hself hk]
    refine (Blueprint.grown_methods hp.methods).mono fun h => { h with continues := ?_ }
    rw [Blueprint.ContinuesMethod, hsame]
    exact h.continues

/-- **What compiling has made of the properties of a known type.** -/
theorem Reachable.grown_properties (hu : u.Reachable) (hk : u.Knows t) :
    Grown (Blueprint.NextProperty u (u.definition t).bases t) (u.properties t) := by
  rw [properties]
  rcases hu.definition_cases t with hx | hx | ⟨v, b, c, ho, hx, hself⟩
  · rw [hx]
    exact .nil
  · rw [(callables_of_builtin? hx).1]
    exact .nil
  · have hsame := ho.overriddenProperty?_eq
    obtain ⟨base?, hp⟩ := ho.exists_passes
    rw [hx, hself hk]
    refine (Blueprint.grown_properties hp.properties).mono fun h => { h with continues := ?_ }
    rw [Blueprint.ContinuesProperty, hsame]
    exact h.continues

/-- **What compiling has made of the constructors of a known type.** -/
theorem Reachable.grown_constructors (hu : u.Reachable) (hk : u.Knows t) :
    Grown (Blueprint.NextConstructor t) (u.constructors t) := by
  rw [constructors]
  rcases hu.definition_cases t with hx | hx | ⟨v, b, c, ho, hx, hself⟩
  · rw [hx]
    exact .nil
  · exact constructors_of_builtin? hx
  · obtain ⟨base?, hp⟩ := ho.exists_passes
    rw [hx, hself hk]
    exact Blueprint.grown_constructors hp.constructors

/-- Constructors are declared by classes and structures. -/
theorem Reachable.isClass_or_isStruct_of_mem_constructors (hu : u.Reachable) (hk : u.Knows t)
    {c : Constructor β} (hc : c ∈ u.constructors t) : t.isClass = true ∨ t.isStruct = true := by
  rw [constructors] at hc
  rcases hu.definition_cases t with hx | hx | ⟨v, b, compiled, ho, hx, hself⟩
  · simp [hx] at hc
  · exact .inl (mem_constructors_of_builtin? hx hc).1
  · obtain ⟨base?, hp⟩ := ho.exists_passes
    rw [hx] at hc
    rw [hself hk]
    exact Blueprint.isClass_or_isStruct_of_mem_constructors hp.constructors hc

/-- **What a constructor takes is known.** -/
theorem Reachable.knows_of_mem_constructors (hu : u.Reachable) {c : Constructor β}
    (hc : c ∈ u.constructors t) {p : Parameter} (hp : p ∈ c.parameters) : u.Knows p.type := by
  rw [constructors] at hc
  rcases hu.definition_cases t with hx | hx | ⟨v, b, compiled, ho, hx, -⟩
  · simp [hx] at hc
  · rw [(mem_constructors_of_builtin? hx hc).2] at hp
    cases hp
  · obtain ⟨base?, hpasses⟩ := ho.exists_passes
    rw [hx] at hc
    have hmem := Blueprint.mem_mentioned_of_mem_constructors hpasses.constructors hc hp
    exact ho.grown.knows (ho.scopes _ hmem)

end Universe
end Reflection
