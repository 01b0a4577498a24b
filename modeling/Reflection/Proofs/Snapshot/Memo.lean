import Mathlib.Data.Finset.Card
import Reflection.Proofs.Snapshot.Coherence

/-!
# Proofs/Snapshot/Memo — what a cache has answered

    calls so far  ──requested──▸  the keys asked for  ═══  the keys kept     (Kept.keys)
                                                              │ find?
                                                              ▾
                                  every answer for a key  ═══  what is kept under it

A cache is called in any order, in a world that changes between the calls.  What it keeps is settled
by the calls alone: one snapshot for each key that was asked for, the one that the first request
built.  So the answers of a history are related as its keys are, and a key is a type, compared part
by part (`TypeRef.Same`), with a filter.
-/

namespace Reflection

variable {β : Type}

/-! ## Types as keys -/

/-- Whether two references are to one type: declared types are one by identity, arrays and nullable
types by what they are made of, and a built-in type is itself. -/
def TypeRef.Same : TypeRef → TypeRef → Prop
  | .declared d, .declared e => d.index = e.index
  | .array s, .array t => Same s t
  | .nullable s, .nullable t => Same s t
  | .object, .object => True
  | .primitive p, .primitive q => p = q
  | .attributeRoot, .attributeRoot => True
  | .metadata, .metadata => True
  | _, _ => False

/-- **References to known types are equal if they are to one type.** -/
theorem Universe.same_iff {u : Universe β} {s t : TypeRef} (hs : u.Knows s) (ht : u.Knows t) :
    s.Same t ↔ s = t := by
  fun_induction TypeRef.Same s t with
  | case1 d e => simpa using ⟨fun h => hs.eq_of_index ht h, fun h => congrArg _ h⟩
  | case2 s t ih => simpa using ih hs ht
  | case3 s t ih => simpa using ih hs ht
  | case4 => simp
  | case5 p q => simp
  | case6 => simp
  | case7 => simp
  | case8 s t => cases s <;> cases t <;> simp_all

namespace Cache

/-! ## Calls -/

/-- A call of a cache. -/
inductive Call where
  /-- Asks for the snapshot of a key. -/
  | request (key : CacheKey)
  /-- Asks for the snapshot of a type under the filter of a request that names none. -/
  | get (t : TypeRef)
  /-- Builds the snapshot of a key and does not keep it. -/
  | build (key : CacheKey)
  /-- Asks whether a key has been requested. -/
  | contains (key : CacheKey)
  /-- Asks how many keys have been requested. -/
  | size

/-- What a call answers. -/
inductive Answer (β : Type) where
  | issue (i : Issue β)
  | built (s : Snapshot β)
  | flag (b : Bool)
  | count (n : ℕ)

/-- The key whose snapshot a call asks for. -/
def Call.key? (standard : MemberFilter) : Call → Option CacheKey
  | request key => some key
  | get t => some (t, standard)
  | build _ | contains _ | size => none

/-- What a call of a cache answers, and what becomes of the cache and the world. -/
def Call.perform (w : World β) (c : Cache β) : Call → Answer β × Cache β × World β
  | request key =>
    let (issue, c, w) := w.requestFrom c key
    (.issue issue, c, w)
  | get t =>
    let (issue, c, w) := w.requestFrom c (t, c.defaultFilter)
    (.issue issue, c, w)
  | build key => (.built (c.build w.types key), c, w)
  | contains key => (.flag (c.contains key), c, w)
  | size => (.count c.size, c, w)

/-- A call that has been answered, and the types that were known then. -/
structure Record (β : Type) where
  types : Universe β
  call : Call
  answer : Answer β

/-- The key whose snapshot a call of a cache asked for. -/
def Record.key? (c : Cache β) (r : Record β) : Option CacheKey := r.call.key? c.defaultFilter

/-- The keys that the calls of a cache asked for, in order. -/
def requested (c : Cache β) (log : List (Record β)) : List CacheKey := log.filterMap (Record.key? c)

/-- **A history of a cache**: calls for known types, while more types become known and other
snapshots are handed out. -/
inductive History (c₀ : Cache β) : List (Record β) → World β → Cache β → Prop
  | start (w : World β) : History c₀ [] w c₀
  | call {log : List (Record β)} {w : World β} {c : Cache β} (h : History c₀ log w c) (call : Call)
      (hk : ∀ key, call.key? c.defaultFilter = some key → w.types.Knows key.1) :
      History c₀ (log ++ [⟨w.types, call, (call.perform w c).1⟩]) (call.perform w c).2.2
        (call.perform w c).2.1
  | other {log : List (Record β)} {w w' : World β} {c : Cache β} (h : History c₀ log w c)
      (ht : w.types.Extends w'.types) (hn : w.nextIssue ≤ w'.nextIssue) : History c₀ log w' c

/-! ## Keys -/

/-- The keys of the snapshots kept. -/
def keys (c : Cache β) : List CacheKey := c.entries.map Prod.fst

variable {c c₀ : Cache β} {u : Universe β} {w w' : World β} {key key' : CacheKey}
  {log before after : List (Record β)} {r r' : Record β}

theorem contains_iff_mem_keys : c.contains key = true ↔ key ∈ c.keys := by
  have hnone : c.find? key = none ↔ key ∉ c.keys := by
    simp only [find?, List.lookup_eq_none_iff, keys, List.mem_map, not_exists, not_and]
    exact forall_congr' fun p => forall_congr' fun _ => by rw [bne_iff_ne, ne_comm]
  rw [contains, Option.isSome_iff_ne_none, ne_eq, hnone, not_not]

/-- A request adds its key, if it is a new one. -/
theorem keys_request (c : Cache β) (u : Universe β) (fresh : ℕ) (key : CacheKey) :
    (c.request u fresh key).2.keys = if key ∈ c.keys then c.keys else c.keys ++ [key] := by
  rw [request]
  cases hfound : c.find? key with
  | some issue =>
    have hmem : key ∈ c.keys := contains_iff_mem_keys.mp (by simp [contains, hfound])
    rw [if_pos hmem]
  | none =>
    have hmem : key ∉ c.keys := fun h => by
      simpa [contains, hfound] using contains_iff_mem_keys.mpr h
    rw [if_neg hmem]
    simp [keys]

theorem defaultFilter_request (c : Cache β) (u : Universe β) (fresh : ℕ) (key : CacheKey) :
    (c.request u fresh key).2.defaultFilter = c.defaultFilter := by
  rw [request]
  cases c.find? key <;> rfl

theorem mem_requested (hr : r ∈ log) (hkey : r.key? c₀ = some key) : key ∈ requested c₀ log :=
  List.mem_filterMap.mpr ⟨r, hr, hkey⟩

theorem requested_concat (c : Cache β) (log : List (Record β)) (r : Record β) :
    requested c (log ++ [r]) = requested c log ++ (r.key? c).toList := by
  cases h : r.key? c <;> simp [requested, h]

/-! ## What is kept -/

/-- **What a cache keeps** after some calls: the keys that they asked for, and under each of them
the snapshot that they were answered with. -/
structure Kept (c₀ : Cache β) (log : List (Record β)) (w : World β) (c : Cache β) : Prop where
  provider : c.provider = c₀.provider
  defaultFilter : c.defaultFilter = c₀.defaultFilter
  keys : c.keys = (requested c₀ log).eraseDups
  found : ∀ r ∈ log, ∀ key, r.key? c₀ = some key →
    ∃ issue, r.answer = .issue issue ∧ c.find? key = some issue
  /-- Snapshots handed out later get numbers of their own. -/
  number_lt : ∀ key issue, c.find? key = some issue → issue.number < w.nextIssue
  number_inj : ∀ key key' issue issue', c.find? key = some issue → c.find? key' = some issue' →
    issue.number = issue'.number → key = key'
  knows : ∀ key ∈ requested c₀ log, w.types.Knows key.1

namespace Kept

theorem start (hempty : c₀.entries = []) (w : World β) : Kept c₀ [] w c₀ where
  provider := rfl
  defaultFilter := rfl
  keys := by simp [Cache.keys, hempty, requested]
  found := by simp
  number_lt := by simp [find?, hempty]
  number_inj := by simp [find?, hempty]
  knows := by simp [requested]

theorem other (h : Kept c₀ log w c) (ht : w.types.Extends w'.types)
    (hn : w.nextIssue ≤ w'.nextIssue) : Kept c₀ log w' c :=
  { h with
    number_lt := fun key issue hfound => Nat.lt_of_lt_of_le (h.number_lt key issue hfound) hn
    knows := fun key hkey => ht.knows (h.knows key hkey) }

/-- A call that asks for no snapshot leaves what is kept. -/
theorem aside (h : Kept c₀ log w c) (hkey : r.key? c₀ = none) : Kept c₀ (log ++ [r]) w c where
  provider := h.provider
  defaultFilter := h.defaultFilter
  keys := by simpa [requested_concat, hkey] using h.keys
  found r' hr' key hk := by
    rcases List.mem_append.mp hr' with hr' | hr'
    · exact h.found r' hr' key hk
    · obtain rfl := List.mem_singleton.mp hr'
      simp [hkey] at hk
  number_lt := h.number_lt
  number_inj := h.number_inj
  knows := by simpa [requested_concat, hkey] using h.knows

/-- The number that a new snapshot bears is the number of no other one. -/
theorem number_ne_nextIssue (h : Kept c₀ log w c) {issue : Issue β}
    (hfound : c.find? key = some issue) : issue.number ≠ w.nextIssue :=
  Nat.ne_of_lt (h.number_lt key issue hfound)

/-- **A request keeps what was kept**, and its own answer. -/
theorem request (h : Kept c₀ log w c) (hkey : r.key? c₀ = some key)
    (hanswer : r.answer = .issue (w.requestFrom c key).1) (hk : w.types.Knows key.1) :
    Kept c₀ (log ++ [r]) (w.requestFrom c key).2.2 (w.requestFrom c key).2.1 := by
  have hcache : (w.requestFrom c key).2.1 = (c.request w.types w.nextIssue key).2 := rfl
  have hissue : (w.requestFrom c key).1 =
      (c.find? key).getD ⟨w.nextIssue, c.build w.types key⟩ := request_fst ..
  rw [hcache]
  constructor
  case provider => exact (provider_request ..).trans h.provider
  case defaultFilter => exact (defaultFilter_request ..).trans h.defaultFilter
  case keys =>
    rw [keys_request, requested_concat, hkey, Option.toList_some, eraseDups_concat, h.keys]
    simp only [List.mem_eraseDups]
  case found =>
    intro r' hr' key' hk'
    rcases List.mem_append.mp hr' with hr' | hr'
    · obtain ⟨issue, hans, hfound⟩ := h.found r' hr' key' hk'
      exact ⟨issue, hans, by rw [find?_request, hfound, Option.some_or]⟩
    · obtain rfl := List.mem_singleton.mp hr'
      obtain rfl := Option.some.inj (hkey.symm.trans hk')
      refine ⟨_, hanswer, ?_⟩
      rw [find?_request, if_pos rfl, hissue]
      cases c.find? key <;> rfl
  case number_lt =>
    intro key' issue hfound
    refine Nat.lt_succ_of_le ?_
    rcases kept_or_new_of_request hfound with hfound | ⟨-, rfl⟩
    · exact Nat.le_of_lt (h.number_lt key' issue hfound)
    · exact Nat.le_refl _
  case number_inj =>
    intro key₁ key₂ issue₁ issue₂ h₁ h₂ hnumber
    rcases kept_or_new_of_request h₁ with h₁ | ⟨hkey₁, rfl⟩ <;>
      rcases kept_or_new_of_request h₂ with h₂ | ⟨hkey₂, rfl⟩
    · exact h.number_inj key₁ key₂ issue₁ issue₂ h₁ h₂ hnumber
    · exact absurd hnumber (h.number_ne_nextIssue h₁)
    · exact absurd hnumber.symm (h.number_ne_nextIssue h₂)
    · exact hkey₁.trans hkey₂.symm
  case knows =>
    intro key' hkey'
    rw [requested_concat, hkey] at hkey'
    rcases List.mem_append.mp hkey' with hkey' | hkey'
    · exact h.knows key' hkey'
    · obtain rfl := List.mem_singleton.mp hkey'
      exact hk

/-- **Every call keeps it so.** -/
theorem call (h : Kept c₀ log w c) (call : Call)
    (hk : ∀ key, call.key? c.defaultFilter = some key → w.types.Knows key.1) :
    Kept c₀ (log ++ [⟨w.types, call, (call.perform w c).1⟩]) (call.perform w c).2.2
      (call.perform w c).2.1 := by
  cases call with
  | request key => exact h.request rfl rfl (hk key rfl)
  | get t => exact h.request (by rw [h.defaultFilter]; rfl) rfl (hk _ rfl)
  | build key => exact h.aside rfl
  | contains key => exact h.aside rfl
  | size => exact h.aside rfl

theorem contains_iff (h : Kept c₀ log w c) :
    c.contains key = true ↔ key ∈ requested c₀ log := by
  rw [contains_iff_mem_keys, h.keys, List.mem_eraseDups]

theorem size_eq (h : Kept c₀ log w c) : c.size = (requested c₀ log).toFinset.card := by
  have hkeys : (requested c₀ log).toFinset = (requested c₀ log).eraseDups.toFinset := by
    ext key
    simp
  rw [hkeys, List.toFinset_card_of_nodup (nodup_eraseDups _), ← h.keys]
  simp [size, Cache.keys]

/-- Requests for one key are answered alike. -/
theorem answer_eq (h : Kept c₀ log w c) (hr : r ∈ log) (hr' : r' ∈ log)
    (hkey : r.key? c₀ = some key) (hkey' : r'.key? c₀ = some key) : r.answer = r'.answer := by
  obtain ⟨issue, hanswer, hfound⟩ := h.found r hr key hkey
  obtain ⟨issue', hanswer', hfound'⟩ := h.found r' hr' key hkey'
  rw [hanswer, hanswer', Option.some.inj (hfound.symm.trans hfound')]

/-- **Answers are identical when they are for one type and one filter.** -/
theorem number_eq_iff (h : Kept c₀ log w c) (hr : r ∈ log) (hr' : r' ∈ log)
    (hkey : r.key? c₀ = some key) (hkey' : r'.key? c₀ = some key') {issue issue' : Issue β}
    (hanswer : r.answer = .issue issue) (hanswer' : r'.answer = .issue issue') :
    issue.number = issue'.number ↔ key.1.Same key'.1 ∧ key.2 = key'.2 := by
  obtain ⟨_, hans, hfound⟩ := h.found r hr key hkey
  obtain ⟨_, hans', hfound'⟩ := h.found r' hr' key' hkey'
  obtain rfl := Answer.issue.inj (hanswer.symm.trans hans)
  obtain rfl := Answer.issue.inj (hanswer'.symm.trans hans')
  rw [Universe.same_iff (h.knows _ (mem_requested hr hkey))
    (h.knows _ (mem_requested hr' hkey')), ← Prod.ext_iff]
  refine ⟨h.number_inj _ _ _ _ hfound hfound', fun heq => ?_⟩
  rw [heq, hfound'] at hfound
  rw [Option.some.inj hfound]

end Kept

namespace History

/-- **Every history keeps it so.** -/
theorem kept (h : History c₀ log w c) (hempty : c₀.entries = []) : Kept c₀ log w c := by
  induction h with
  | start w => exact .start hempty w
  | call _ call hk ih => exact ih.call call hk
  | other _ ht hn ih => exact ih.other ht hn

/-- Every call of a history was made after the calls before it. -/
theorem exists_before (h : History c₀ log w c) (hsplit : log = before ++ r :: after) :
    ∃ v d, History c₀ before v d ∧ r.types = v.types ∧ r.answer = (r.call.perform v d).1 := by
  induction h generalizing after with
  | start w => simp at hsplit
  | @call log w c h call hk ih =>
    rcases after.eq_nil_or_concat' with rfl | ⟨after, last, rfl⟩
    · obtain ⟨rfl, hr⟩ := List.append_inj' hsplit rfl
      obtain rfl := List.singleton_inj.mp hr
      exact ⟨w, c, h, rfl, rfl⟩
    · rw [← List.cons_append, ← List.append_assoc] at hsplit
      exact ih (List.append_inj' hsplit rfl).1
  | other h ht hn ih => exact ih hsplit

end History

/-! ## Memoisation -/

/-- **What calls of a cache have to do with one another.** -/
structure Memoises (c₀ : Cache β) (log : List (Record β)) (w : World β) (c : Cache β) : Prop where
  /-- A request is answered with a snapshot that is kept. -/
  answered : ∀ r ∈ log, ∀ key, r.key? c₀ = some key → ∃ issue, r.answer = .issue issue
  /-- Two requests are answered with the identical snapshot if and only if they are for one type
  and one filter. -/
  identical_iff : ∀ r ∈ log, ∀ r' ∈ log, ∀ key key' issue issue', r.key? c₀ = some key →
    r'.key? c₀ = some key' → r.answer = .issue issue → r'.answer = .issue issue' →
      (issue.number = issue'.number ↔ key.1.Same key'.1 ∧ key.2 = key'.2)
  /-- No later call changes what a key stands for. -/
  unchanged : ∀ r ∈ log, ∀ r' ∈ log, ∀ key, r.key? c₀ = some key → r'.key? c₀ = some key →
    r.answer = r'.answer
  /-- The first request for a key builds its snapshot. -/
  first : ∀ before r after, log = before ++ r :: after → ∀ key, r.key? c₀ = some key →
    key ∉ requested c₀ before →
      ∃ number, r.answer = .issue ⟨number, .build c₀.provider r.types key.1 key.2⟩
  /-- A key is there if it was requested before. -/
  contains : ∀ before r after, log = before ++ r :: after → ∀ key, r.call = .contains key →
    ∃ b, r.answer = .flag b ∧ (b = true ↔ key ∈ requested c₀ before)
  /-- The size is the number of distinct keys requested before. -/
  size : ∀ before r after, log = before ++ r :: after → r.call = .size →
    r.answer = .count (requested c₀ before).toFinset.card
  /-- What is kept is what was requested, in order, and nothing else. -/
  keys : c.keys = (requested c₀ log).eraseDups
  /-- To ask for a type alone is to ask for it under the default filter. -/
  get : ∀ t, (Call.get t).perform w c = (Call.request (t, c₀.defaultFilter)).perform w c
  /-- Calls that ask for no snapshot leave the cache as it is. -/
  aside : ∀ call : Call, call.key? c₀.defaultFilter = none → (call.perform w c).2.1 = c

/-- What the first request for a key is answered with. -/
theorem Kept.answer_of_new (h : Kept c₀ before w c) (htypes : r.types = w.types)
    (hanswer : r.answer = (r.call.perform w c).1) (hkey : r.key? c₀ = some key)
    (hnew : key ∉ requested c₀ before) :
    r.answer = .issue ⟨w.nextIssue, .build c₀.provider r.types key.1 key.2⟩ := by
  have hfree : c.find? key = none := by
    simpa [Cache.contains] using mt h.contains_iff.mp hnew
  have hissue : (c.request w.types w.nextIssue key).1 =
      ⟨w.nextIssue, .build c₀.provider r.types key.1 key.2⟩ := by
    rw [request_fst, hfree, Option.getD_none, Cache.build, h.provider, htypes]
  rw [hanswer, ← hissue]
  rw [Record.key?] at hkey
  cases hcall : r.call with
  | request key' =>
    obtain rfl := Option.some.inj ((hcall ▸ hkey : (Call.request key').key? _ = _))
    rfl
  | get t =>
    obtain rfl := Option.some.inj ((hcall ▸ hkey : (Call.get t).key? _ = _))
    rw [← h.defaultFilter]
    rfl
  | build _ => simp [hcall, Call.key?] at hkey
  | contains _ => simp [hcall, Call.key?] at hkey
  | size => simp [hcall, Call.key?] at hkey

/-- **Caches memoise**, over every history that starts without snapshots: under every provider and
default filter, and however types are declared and defined between the calls. -/
theorem History.memoises (h : History c₀ log w c) (hempty : c₀.entries = []) :
    Memoises c₀ log w c := by
  have hkept := h.kept hempty
  constructor
  case answered =>
    intro r hr key hkey
    obtain ⟨issue, hanswer, -⟩ := hkept.found r hr key hkey
    exact ⟨issue, hanswer⟩
  case identical_iff =>
    intro r hr r' hr' key key' issue issue' hkey hkey' hanswer hanswer'
    exact hkept.number_eq_iff hr hr' hkey hkey' hanswer hanswer'
  case unchanged =>
    intro r hr r' hr' key hkey hkey'
    exact hkept.answer_eq hr hr' hkey hkey'
  case first =>
    intro before r after hsplit key hkey hnew
    obtain ⟨v, d, hbefore, htypes, hanswer⟩ := h.exists_before hsplit
    exact ⟨_, (hbefore.kept hempty).answer_of_new htypes hanswer hkey hnew⟩
  case contains =>
    intro before r after hsplit key hcall
    obtain ⟨v, d, hbefore, -, hanswer⟩ := h.exists_before hsplit
    refine ⟨d.contains key, ?_, (hbefore.kept hempty).contains_iff⟩
    rw [hanswer, hcall]
    rfl
  case size =>
    intro before r after hsplit hcall
    obtain ⟨v, d, hbefore, -, hanswer⟩ := h.exists_before hsplit
    rw [hanswer, hcall, ← (hbefore.kept hempty).size_eq]
    rfl
  case keys => exact hkept.keys
  case get =>
    intro t
    rw [← hkept.defaultFilter]
    rfl
  case aside =>
    intro call hkey
    cases call <;> first | rfl | simp [Call.key?] at hkey

/-- The arrays of a class, under the filter of a request that names none. -/
def arrayKey : CacheKey := (.array World.numberClass.self, .standard)

/-- A cache is asked for the arrays of a class, and once more when another type has been declared;
it keeps one snapshot, and a snapshot that is only built adds none. -/
theorem memoises_arrays :
    ∃ log w c, History World.classDeclared.cache log w c ∧
      Memoises World.classDeclared.cache log w c ∧
      log.map Record.call =
        [.contains arrayKey, .request arrayKey, .get (.array World.numberClass.self),
          .build (.object, .all), .size] ∧
      c.keys = [arrayKey] := by
  have known (u : Universe Unit) (hu : World.classDeclared.types.Extends u) (key : CacheKey)
      (hkey : arrayKey = key) : u.Knows key.1 :=
    hkey ▸ hu.knows (show World.classDeclared.types.Knows arrayKey.1 by decide)
  have h₀ : History World.classDeclared.cache [] World.classDeclared World.classDeclared.cache :=
    .start _
  have h₁ := h₀.call (.contains arrayKey) (by simp [Call.key?])
  have h₂ := h₁.call (.request arrayKey) fun key hkey =>
    known _ (.refl _) key (Option.some.inj hkey)
  have h₃ : History _ _ (World.declare _ .classType "D").2 _ :=
    h₂.other (Universe.extends_declare ..) (Nat.le_refl _)
  have h₄ := h₃.call (.get (.array World.numberClass.self)) fun key hkey =>
    known _ (Universe.extends_declare ..) key (Option.some.inj hkey)
  have h₅ := h₄.call (.build (.object, .all)) (by simp [Call.key?])
  have h₆ := h₅.call .size (by simp [Call.key?])
  exact ⟨_, _, _, h₆, h₆.memoises rfl, rfl, rfl⟩

/-- The cache kept for everyone is called like any other one. -/
theorem History.snapshot (h : History c₀ log w w.cache) {t : TypeRef} (f : MemberFilter)
    (hk : w.types.Knows t) :
    History c₀ (log ++ [⟨w.types, .request (t, f), .issue (w.snapshot t f).1⟩]) (w.snapshot t f).2
      (w.snapshot t f).2.cache :=
  .other (h.call (.request (t, f)) fun _ hkey => Option.some.inj hkey ▸ hk) (.refl _)
    (Nat.le_refl _)

end Cache

end Reflection
