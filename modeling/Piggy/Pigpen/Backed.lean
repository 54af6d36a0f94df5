import Piggy.Pigpen.Cache

/-!
# What stands behind a recipient file

A file that is handed out in place of a document holds the recipients of that document, or of
an answer to the very pointer at the path. The names of the cache keep the answers to different
pointers apart as long as no two pointers have one hash.
-/

namespace Piggy.Pigpen.Cache

open Piggy.Core Piggy.Markl
open Piggy.Box (Bytes strBytes fromUtf8 fromUtf8_ok)
open Piggy.Store (Path)

/-! ## Names -/

theorem length_hex16 (h : UInt64) : (hex16 h).length = 16 := by
  rw [hex16, List.length_map, List.length_reverse, List.length_range]

/-- Numbers with the same last hexadecimal digits are the same up to there. -/
theorem mod_pow_of_digits {a b : Nat} {n : Nat} (h : ∀ i < n, a / 16 ^ i % 16 = b / 16 ^ i % 16) :
    a % 16 ^ n = b % 16 ^ n := by
  induction n with
  | zero => rw [Nat.pow_zero, Nat.mod_one, Nat.mod_one]
  | succ n ih =>
    rw [Nat.mod_pow_succ, Nat.mod_pow_succ, ih fun i hi => h i (Nat.lt_succ_of_lt hi),
      h n (Nat.lt_succ_self n)]

theorem hex16_inj {h h' : UInt64} (he : hex16 h = hex16 h') : h = h' := by
  have hdigit : ∀ a < 16, ∀ b < 16, Nat.digitChar a = Nat.digitChar b → a = b := by decide
  have hdigits : ∀ i < 16, h.toNat / 16 ^ i % 16 = h'.toNat / 16 ^ i % 16 := by
    intro i hi
    have hmem : i ∈ (List.range 16).reverse := List.mem_reverse.mpr (List.mem_range.mpr hi)
    exact hdigit _ (Nat.mod_lt _ (by decide)) _ (Nat.mod_lt _ (by decide))
      (List.map_inj_left.mp he i hmem)
  have hmod := mod_pow_of_digits hdigits
  have hsize : (16 : Nat) ^ 16 = 2 ^ 64 := by decide
  rw [hsize, Nat.mod_eq_of_lt h.toNat_lt, Nat.mod_eq_of_lt h'.toNat_lt] at hmod
  exact UInt64.toNat_inj.mp hmod

/-- The name of the file that keeps an answer. -/
def answerName (path pointer : UInt64) : List Char :=
  hex16 path ++ '.' :: (hex16 pointer ++ ".piggy-pointer-raw".toList)

theorem answerName_inj {p p' q q' : UInt64} (h : answerName p q = answerName p' q') : p = p' ∧ q = q' := by
  obtain ⟨hp, hrest⟩ := List.append_inj h (by rw [length_hex16, length_hex16])
  obtain ⟨hq, -⟩ := List.append_inj (List.cons.inj hrest).2 (by rw [length_hex16, length_hex16])
  exact ⟨hex16_inj hp, hex16_inj hq⟩

theorem getLast?_answerName (p q : UInt64) : (answerName p q).getLast? = some 'w' := by
  rw [answerName, List.getLast?_append_of_ne_nil _ (List.cons_ne_nil _ _), List.getLast?_cons,
    List.getLast?_append_of_ne_nil _ (by decide)]
  rfl

theorem fileStem_recipients (p : UInt64) : fileStem (hex16 p ++ ".piggy-ids".toList) = hex16 p := by
  have hlen := length_hex16 p
  generalize hex16 p = name at hlen
  have hdot : (name ++ ".piggy-ids".toList).rdropWhile (· ≠ '.') = name ++ ['.'] := by
    have hext : ".piggy-ids".toList.reverse = ['s', 'd', 'i', '-', 'y', 'g', 'g', 'i', 'p', '.'] := by
      decide
    rw [List.rdropWhile, List.reverse_append, hext]
    simp [List.dropWhile]
  rw [fileStem, hdot]
  split
  · next h => simp at h
  · next h =>
    have hnil : name = [] := by simpa using h
    rw [hnil] at hlen
    cases hlen
  · rw [if_neg, List.dropLast_concat]
    intro h
    have hlong := congrArg List.length h
    rw [List.length_append, hlen] at hlong
    cases hlong

theorem cachePathFor_eq {h : Hashes} {c : Call} {path : CachePath} (hpath : cachePathFor h c = some path) :
    path.name = hex16 (h.path c.piggyIds) ++ ".piggy-ids".toList := by
  simp only [cachePathFor, Option.bind_eq_bind, Option.bind_eq_some_iff] at hpath
  obtain ⟨cacheHome, -, heq⟩ := hpath
  cases heq
  rfl

/-- Where the answer to a pointer is kept. -/
theorem resolvedPointerCachePathFor_eq {h : Hashes} {c : Call} {ptr : Pointer} {path : CachePath}
    (hpath : resolvedPointerCachePathFor h c ptr = some path) :
    path.name = answerName (h.path c.piggyIds) (h.pointer ptr) := by
  simp only [resolvedPointerCachePathFor, Option.bind_eq_bind, Option.bind_eq_some_iff] at hpath
  obtain ⟨recipients, hrecipients, heq⟩ := hpath
  cases heq
  have hext : (hex16 (h.pointer ptr) ++ ".piggy-pointer-raw".toList).isEmpty = false := by
    simp
  simp only [setExtension, cachePathFor_eq hrecipients, fileStem_recipients, hext]
  rfl

/-! ## Writing a cache file -/

theorem getLast?_stagingPath (c : Call) (path : CachePath) :
    (stagingPath c path).name.getLast? = some 'p' := by
  rw [stagingPath, List.getLast?_append_of_ne_nil _ (List.cons_ne_nil _ _), List.getLast?_cons,
    List.getLast?_append_of_ne_nil _ (by decide)]
  rfl

/-- Writing touches the file and the one it is staged in. -/
theorem writeCacheFile_frame {c : Call} {outcome : WriteOutcome} {path other : CachePath} {contents : Bytes}
    {w : World} (hother : other ≠ path) (hname : other.name.getLast? ≠ some 'p') :
    (writeCacheFile c outcome path contents w).2.cache other = w.cache other := by
  have hstaging : other ≠ stagingPath c path := by
    rintro rfl
    exact hname (getLast?_stagingPath c path)
  cases outcome with
  | noDirectory => rfl
  | failed left => exact Function.update_of_ne hstaging _ _
  | done =>
    rw [writeCacheFile]
    dsimp only
    rw [Function.update_of_ne hother, Function.update_of_ne hstaging]

theorem writeCacheFile_answers (c : Call) (outcome : WriteOutcome) (path : CachePath) (contents : Bytes)
    (w : World) : (writeCacheFile c outcome path contents w).2.answers = w.answers := by
  cases outcome <;> rfl

/-- A write that succeeds leaves the contents. -/
theorem writeCacheFile_done {c : Call} {outcome : WriteOutcome} {path : CachePath} {contents : Bytes}
    {w w' : World} (h : writeCacheFile c outcome path contents w = (.ok (), w')) :
    w'.cache path = some ⟨contents, c.later⟩ := by
  cases outcome with
  | noDirectory => cases h
  | failed left => cases h
  | done =>
    obtain rfl := (Prod.mk.inj h).2
    exact Function.update_self path _ _

/-- A write that fails leaves the file. -/
theorem writeCacheFile_failed {c : Call} {outcome : WriteOutcome} {path : CachePath} {contents : Bytes}
    {w w' : World} {e : ResolveError} (h : writeCacheFile c outcome path contents w = (.error e, w'))
    (hname : path.name.getLast? ≠ some 'p') : w'.cache path = w.cache path := by
  cases outcome with
  | noDirectory =>
    obtain rfl := (Prod.mk.inj h).2
    rfl
  | failed left =>
    obtain rfl := (Prod.mk.inj h).2
    refine Function.update_of_ne ?_ _ _
    intro heq
    rw [heq] at hname
    exact hname (getLast?_stagingPath c path)
  | done => cases h

/-! ## Where answers come from -/

/-- A document passes the check whoever asked for it. -/
theorem resolvedRecipientSet_ok {bytes : Bytes} {ptr : Pointer} {doc : Document} :
    resolvedRecipientSet bytes ptr = .ok doc ↔ Document.parse bytes = .ok doc ∧ doc.isSealed = false ∧
      doc.encryptionRecipients ≠ [] := by
  rw [resolvedRecipientSet]
  rcases Document.parse bytes with e | d
  · simp
  · simp only [guard_ok, Except.ok.injEq, Bool.not_eq_true, List.isEmpty_eq_false_iff]
    constructor
    · rintro ⟨hsealed, hsome, rfl⟩
      exact ⟨rfl, hsealed, hsome⟩
    · rintro ⟨rfl, hsealed, hsome⟩
      exact ⟨hsealed, hsome, rfl⟩

/-- An answer that passed the check and is kept as it came under the hash of its pointer. -/
structure Answer.KeptAs (h : Hashes) (a : Answer) (pointer : UInt64) (file : CacheFile) : Prop where
  hash : h.pointer a.pointer = pointer
  contents : a.bytes = file.contents
  modified : a.received = file.modified
  passed : ∃ doc, resolvedRecipientSet a.bytes a.pointer = .ok doc

/-- Every kept answer was given. -/
def Sourced (h : Hashes) (w : World) : Prop :=
  ∀ dir p q file, w.cache ⟨dir, answerName p q⟩ = some file → ∃ a ∈ w.answers, a.KeptAs h q file

variable {h : Hashes} {c : Call} {w : World}

theorem Sourced.answered (hs : Sourced h w) (a : Answer) : Sourced h (w.answered a) := by
  intro dir p q file hfile
  obtain ⟨a', hmem, hkept⟩ := hs dir p q file hfile
  exact ⟨a', List.mem_append_left _ hmem, hkept⟩

/-- A write keeps the cache in order when what it puts under the name of an answer was given. -/
theorem Sourced.write (hs : Sourced h w) {outcome : WriteOutcome} {path : CachePath} {contents : Bytes}
    (hpath : ∀ p q, path.name = answerName p q →
      ∃ a ∈ w.answers, a.KeptAs h q ⟨contents, c.later⟩) :
    Sourced h (writeCacheFile c outcome path contents w).2 := by
  intro dir p q file hfile
  have hname : (CachePath.mk dir (answerName p q)).name.getLast? ≠ some 'p' := by
    rw [getLast?_answerName]
    decide
  rw [writeCacheFile_answers]
  by_cases heq : ⟨dir, answerName p q⟩ = path
  · subst heq
    rcases hrun : writeCacheFile c outcome ⟨dir, answerName p q⟩ contents w with ⟨_ | ⟨⟩, w'⟩
    · rw [hrun, writeCacheFile_failed hrun hname] at hfile
      exact hs dir p q file hfile
    · rw [hrun, writeCacheFile_done hrun] at hfile
      obtain rfl := Option.some.inj hfile
      exact hpath p q rfl
  · rw [writeCacheFile_frame heq hname] at hfile
    exact hs dir p q file hfile

/-- What writing the recipients of a document does to the world. -/
theorem recipientSetDoc_world (doc : Document) :
    (recipientSetDocToRfc0003Cache h c doc w).2 = w ∨ ∃ path contents, cachePathFor h c = some path ∧
      (recipientSetDocToRfc0003Cache h c doc w).2 =
        (writeCacheFile c c.recipientsWrite path contents w).2 := by
  rw [recipientSetDocToRfc0003Cache]
  rcases convertedRecipients doc with e | recipients
  · exact .inl rfl
  rcases hpath : cachePathFor h c with _ | path
  · exact .inl rfl
  · refine .inr ⟨path, strBytes (String.ofList (Ids.render recipients)), rfl, ?_⟩
    rcases hrun : writeCacheFile c c.recipientsWrite path (strBytes (String.ofList (Ids.render recipients))) w
      with ⟨_ | ⟨⟩, w'⟩
    · simp only [hrun]
    · simp only [hrun]

theorem recipientSetDoc_answers (h : Hashes) (c : Call) (doc : Document) (w : World) :
    (recipientSetDocToRfc0003Cache h c doc w).2.answers = w.answers := by
  rcases recipientSetDoc_world (h := h) (c := c) (w := w) doc with heq | ⟨path, contents, -, heq⟩
  · rw [heq]
  · rw [heq, writeCacheFile_answers]

theorem Sourced.recipientSetDoc (hs : Sourced h w) (doc : Document) :
    Sourced h (recipientSetDocToRfc0003Cache h c doc w).2 := by
  rcases recipientSetDoc_world (h := h) (c := c) (w := w) doc with heq | ⟨path, contents, hpath, heq⟩
  · rw [heq]
    exact hs
  · rw [heq]
    refine hs.write ?_
    intro p q hname
    rw [cachePathFor_eq hpath] at hname
    have hlast := congrArg List.getLast? hname
    rw [getLast?_answerName, List.getLast?_append_of_ne_nil _ (by decide)] at hlast
    cases hlast

/-- What happens to a pointer: a kept answer is used, no answer comes, or one comes and is
checked before it is kept. -/
theorem pointerDocument_cases (h : Hashes) (c : Call) (ptr : Pointer) (w : World) :
    (∃ e, pointerDocument h c ptr w = (.error e, w)) ∨
    (∃ path doc, resolvedPointerCachePathFor h c ptr = some path ∧
      cachedAnswer c ptr path w = some doc ∧ pointerDocument h c ptr w = (.ok doc, w)) ∨
    ∃ bytes, c.resolver ptr.kind ptr.locator = .ok bytes ∧
      ((∃ e, resolvedRecipientSet bytes ptr = .error e ∧
          pointerDocument h c ptr w = (.error e, w.answered ⟨ptr, bytes, c.later⟩)) ∨
        ∃ path doc, resolvedPointerCachePathFor h c ptr = some path ∧
          resolvedRecipientSet bytes ptr = .ok doc ∧
          pointerDocument h c ptr w =
            ((writeCacheFile c c.answerWrite path bytes (w.answered ⟨ptr, bytes, c.later⟩)).1.map
                fun _ => doc,
              (writeCacheFile c c.answerWrite path bytes (w.answered ⟨ptr, bytes, c.later⟩)).2)) := by
  rw [pointerDocument]
  rcases resolvedPointerCachePathFor h c ptr with _ | path
  · exact .inl ⟨_, rfl⟩
  rcases hcached : cachedAnswer c ptr path w with _ | doc
  · rcases hresolver : c.resolver ptr.kind ptr.locator with e | bytes
    · refine .inl ⟨.resolving c.piggyIds ptr e, ?_⟩
      simp only [hcached, invokeResolver, hresolver]
    · refine .inr (.inr ⟨bytes, rfl, ?_⟩)
      simp only [hcached, invokeResolver, hresolver]
      rcases hcheck : resolvedRecipientSet bytes ptr with e | doc
      · exact .inl ⟨e, rfl, rfl⟩
      · refine .inr ⟨path, doc, rfl, rfl, ?_⟩
        rcases writeCacheFile c c.answerWrite path bytes (w.answered ⟨ptr, bytes, c.later⟩) with
          ⟨_ | ⟨⟩, w'⟩
        · rfl
        · rfl
  · refine .inr (.inl ⟨path, doc, rfl, hcached, ?_⟩)
    simp only [hcached]

/-- The answer was there already and is young enough. -/
def Answer.FreshAt (a : Answer) (c : Call) : Prop :=
  c.cacheDisabled = false ∧ a.received ≤ c.now ∧ c.now - a.received < CACHE_TTL

/-- A kept answer that is used is fresh and passes. -/
theorem Sourced.cachedAnswer (hs : Sourced h w) {ptr : Pointer} {path : CachePath} {doc : Document}
    (hpath : resolvedPointerCachePathFor h c ptr = some path)
    (hcached : cachedAnswer c ptr path w = some doc) :
    ∃ a ∈ w.answers, h.pointer a.pointer = h.pointer ptr ∧ a.FreshAt c ∧
      resolvedRecipientSet a.bytes ptr = .ok doc := by
  obtain ⟨dir, name⟩ := path
  have hname : name = answerName (h.path c.piggyIds) (h.pointer ptr) := resolvedPointerCachePathFor_eq hpath
  subst hname
  rw [Cache.cachedAnswer] at hcached
  split at hcached
  · next hfresh =>
    obtain ⟨file, hfile, hcheck⟩ := Option.bind_eq_some_iff.mp hcached
    obtain ⟨a, ha, hkept⟩ := hs dir _ _ file hfile
    simp only [cacheIsFresh, hfile, Bool.and_eq_true, Bool.not_eq_true', decide_eq_true_eq] at hfresh
    obtain ⟨henabled, -, hage⟩ := hfresh
    refine ⟨a, ha, hkept.hash, ⟨henabled, ?_⟩, ?_⟩
    · rw [hkept.modified]
      exact hage
    · rw [hkept.contents]
      rcases hrun : resolvedRecipientSet file.contents ptr with e | d
      · rw [hrun] at hcheck
        cases hcheck
      · rw [hrun] at hcheck
        rw [Option.some.inj hcheck]
  · cases hcached

/-- A pointer is followed to an answer under its hash, and no other answers come. -/
theorem Sourced.pointerDocument (hs : Sourced h w) (ptr : Pointer) :
    Sourced h (pointerDocument h c ptr w).2 ∧
      (∀ a ∈ (pointerDocument h c ptr w).2.answers, a ∈ w.answers ∨ a.pointer = ptr) ∧
      ∀ doc, (Cache.pointerDocument h c ptr w).1 = .ok doc →
        ∃ a ∈ (Cache.pointerDocument h c ptr w).2.answers, h.pointer a.pointer = h.pointer ptr ∧
          resolvedRecipientSet a.bytes ptr = .ok doc ∧
          (a ∈ w.answers ∧ a.FreshAt c ∨ c.resolver ptr.kind ptr.locator = .ok a.bytes) := by
  have hanswers : ∀ bytes, ∀ a ∈ (w.answered ⟨ptr, bytes, c.later⟩).answers,
      a ∈ w.answers ∨ a.pointer = ptr := by
    intro bytes a ha
    rcases List.mem_append.mp ha with ha | ha
    · exact .inl ha
    · rw [List.mem_singleton.mp ha]
      exact .inr rfl
  have hlast : ∀ bytes, (⟨ptr, bytes, c.later⟩ : Answer) ∈ (w.answered ⟨ptr, bytes, c.later⟩).answers :=
    fun bytes => List.mem_append_right _ List.mem_cons_self
  rcases pointerDocument_cases h c ptr w with ⟨e, heq⟩ | ⟨path, doc, hpath, hcached, heq⟩ |
    ⟨bytes, hresolver, ⟨e, hcheck, heq⟩ | ⟨path, doc, hpath, hcheck, heq⟩⟩
  · rw [heq]
    exact ⟨hs, fun a ha => .inl ha, nofun⟩
  · rw [heq]
    refine ⟨hs, fun a ha => .inl ha, ?_⟩
    rintro _ ⟨⟩
    obtain ⟨a, ha, hhash, hfresh, hpassed⟩ := hs.cachedAnswer hpath hcached
    exact ⟨a, ha, hhash, hpassed, .inl ⟨ha, hfresh⟩⟩
  · rw [heq]
    exact ⟨hs.answered _, hanswers bytes, nofun⟩
  · rw [heq]
    refine ⟨(hs.answered _).write ?_, ?_, ?_⟩
    · intro p q hname
      rw [resolvedPointerCachePathFor_eq hpath] at hname
      exact ⟨_, hlast bytes, (answerName_inj hname).2, rfl, rfl, doc, hcheck⟩
    · rw [writeCacheFile_answers]
      exact hanswers bytes
    · intro doc' hok
      rw [writeCacheFile_answers]
      obtain rfl : doc = doc' := by
        dsimp only at hok
        generalize (writeCacheFile c c.answerWrite path bytes _).1 = outcome at hok
        cases outcome with
        | error e => cases hok
        | ok _ => exact Except.ok.inj hok
      exact ⟨_, hlast bytes, rfl, hcheck, .inr hresolver⟩

/-- A call keeps the cache in order, and its answers are to the pointer at its path. -/
theorem Sourced.resolve (hs : Sourced h w) :
    Sourced h (resolvePiggyIdsPath h c w).2 ∧
      ∀ a ∈ (resolvePiggyIdsPath h c w).2.answers, a ∈ w.answers ∨ c.pointer? = some a.pointer := by
  have hstill : Sourced h w ∧ ∀ a ∈ w.answers, a ∈ w.answers ∨ c.pointer? = some a.pointer :=
    ⟨hs, fun a ha => .inl ha⟩
  have hdoc : ∀ doc, Sourced h (recipientSetDocToRfc0003Cache h c doc w).2 ∧
      ∀ a ∈ (recipientSetDocToRfc0003Cache h c doc w).2.answers,
        a ∈ w.answers ∨ c.pointer? = some a.pointer := by
    intro doc
    rw [recipientSetDoc_answers]
    exact ⟨hs.recipientSetDoc doc, fun a ha => .inl ha⟩
  rw [resolvePiggyIdsPath]
  rcases hraw : c.raw with _ | raw
  · exact hstill
  dsimp only
  split
  · exact hstill
  rcases hptr : Pointer.parse raw with e | ptr
  · rcases hparse : Document.parse raw with e' | doc
    · dsimp only
      split
      · exact hstill
      · exact hstill
    · exact hdoc doc
  · have hpointer : c.pointer? = some ptr := by
      simp only [Call.pointer?, hraw, Option.bind_some, hptr]
      rfl
    obtain ⟨hsource, hanswers, -⟩ := hs.pointerDocument (c := c) ptr
    dsimp only
    rcases hrun : Cache.pointerDocument h c ptr w with ⟨e | doc, w'⟩
    · simp only [hrun] at hsource hanswers ⊢
      refine ⟨hsource, ?_⟩
      intro a ha
      refine (hanswers a ha).imp id ?_
      rintro rfl
      exact hpointer
    · simp only [hrun] at hsource hanswers ⊢
      refine ⟨hsource.recipientSetDoc doc, ?_⟩
      intro a ha
      rw [recipientSetDoc_answers] at ha
      refine (hanswers a ha).imp id ?_
      rintro rfl
      exact hpointer

/-- Over a whole history every kept answer was given to a pointer that a call found. -/
theorem sourced_worldAfter (h : Hashes) (events : List CacheEvent) :
    Sourced h (worldAfter h events) ∧
      ∀ a ∈ (worldAfter h events).answers, a.pointer ∈ pointersOf events := by
  induction events using List.reverseRecOn with
  | nil =>
    refine ⟨?_, fun a ha => nomatch ha⟩
    intro dir p q file hfile
    cases hfile
  | append_singleton events e ih =>
    obtain ⟨hs, hasked⟩ := ih
    have hworld : worldAfter h (events ++ [e]) = e.step h (worldAfter h events) := by
      rw [worldAfter, List.foldl_append]
      rfl
    have hpointers : pointersOf (events ++ [e]) = pointersOf events ++ pointersOf [e] := by
      rw [pointersOf, List.filterMap_append]
      rfl
    rw [hworld, hpointers]
    cases e with
    | called c =>
      obtain ⟨hsource, hanswers⟩ := hs.resolve (c := c)
      refine ⟨hsource, ?_⟩
      intro a ha
      rcases hanswers a ha with hold | hnew
      · exact List.mem_append_left _ (hasked a hold)
      · refine List.mem_append_right _ (List.mem_filterMap.mpr ⟨.called c, List.mem_cons_self, hnew⟩)
    | removed path =>
      refine ⟨?_, fun a ha => List.mem_append_left _ (hasked a ha)⟩
      intro dir p q file hfile
      by_cases heq : (⟨dir, answerName p q⟩ : CachePath) = path
      · subst heq
        change Function.update _ _ _ _ = _ at hfile
        rw [Function.update_self] at hfile
        cases hfile
      · change Function.update _ _ _ _ = _ at hfile
        rw [Function.update_of_ne heq] at hfile
        exact hs dir p q file hfile

/-! ## Documents as recipient files -/

/-- A recipient file that a document is read from: the encryption recipients of both are the
same, in order. -/
def StandsFor (contents : Bytes) (doc : Document) : Prop :=
  ∃ text rs, fromUtf8 contents = .ok text ∧ Ids.parse text.toList = .ok rs ∧
    (Ids.encryptionRecipients rs).map (·.id) = doc.encryptionRecipients.map (·.id)

/-- A line that a recipient file can hold, or that is left out of it. -/
def LineFits (r : Recipient) : Bool :=
  match r.id.purpose with
  | some (.other _) | some .piggyRecipientV1 | some .piggyPivAuthV1 => true
  | _ => false

/-- The id of a line is one that a recipient file takes, one that is left out, or neither. -/
theorem line_cases (r : Recipient) :
    ((r.id.purpose matches some (.other _)) = true ∧ LineFits r = true ∧
      isEncryptionRecipient r.id = false) ∨
    (Ids.purposeTaggedEntryOk r.id = true ∧ (r.id.purpose matches some (.other _)) = false ∧
      LineFits r = true ∧
      isEncryptionRecipient r.id = (r.id.format matches .pivyEcdhP256Pub | .ageX25519Pub)) ∨
    (Ids.purposeTaggedEntryOk r.id = false ∧ (r.id.purpose matches some (.other _)) = false ∧
      LineFits r = false) := by
  obtain ⟨id, comment, wrap⟩ := r
  rcases hpurpose : id.purpose with _ | p
  · refine .inr (.inr ⟨?_, by simp, by simp [LineFits, hpurpose]⟩)
    simp only [Ids.purposeTaggedEntryOk, hpurpose]
  · have haccepts := id.compatible p hpurpose
    cases p with
    | other name =>
      refine .inl ⟨by simp, by simp [LineFits, hpurpose], ?_⟩
      simp [isEncryptionRecipient, hpurpose]
    | piggyRecipientV1 =>
      refine .inr (.inl ⟨?_, by simp, by simp [LineFits, hpurpose], ?_⟩)
      · simp only [Ids.purposeTaggedEntryOk, hpurpose]
        exact haccepts rfl
      · cases hformat : id.format <;> simp [isEncryptionRecipient, hpurpose, hformat]
    | piggyPivAuthV1 =>
      refine .inr (.inl ⟨?_, by simp, by simp [LineFits, hpurpose], ?_⟩)
      · simp only [Ids.purposeTaggedEntryOk, hpurpose]
        exact haccepts rfl
      · -- the formats of this purpose are keys of another kind
        have hformat := haccepts rfl
        revert hformat
        simp only [isEncryptionRecipient, hpurpose]
        cases id.format <;> decide
    | _ =>
      refine .inr (.inr ⟨?_, by simp, by simp [LineFits, hpurpose]⟩)
      simp only [Ids.purposeTaggedEntryOk, hpurpose]

/-- Whether the lines of a document can be converted, and what comes of it. -/
theorem converted_spec (rs : List Recipient) :
    ((∃ out, (rs.filter fun r => !(r.id.purpose matches some (.other _))).mapM (fun r =>
        (Ids.Recipient.new r.id r.comment).mapError ResolveError.convertingRecipient) = .ok out) ↔
      ∀ r ∈ rs, LineFits r = true) ∧
    ∀ out, (rs.filter fun r => !(r.id.purpose matches some (.other _))).mapM (fun r =>
        (Ids.Recipient.new r.id r.comment).mapError ResolveError.convertingRecipient) = .ok out →
      (Ids.encryptionRecipients (out.map Ids.Recipient.reread)).map (·.id) =
          (rs.filter fun r => isEncryptionRecipient r.id).map (·.id) ∧
        ∀ x ∈ out, ∃ r ∈ rs, x.comment = r.comment := by
  induction rs with
  | nil =>
    refine ⟨⟨fun _ => List.forall_mem_nil _, fun _ => ⟨[], rfl⟩⟩, ?_⟩
    rintro out ⟨⟩
    exact ⟨rfl, List.forall_mem_nil _⟩
  | cons r rs ih =>
    obtain ⟨ihok, ihout⟩ := ih
    rcases line_cases r with ⟨hother, hfits, henc⟩ | ⟨htagged, hknown, hfits, henc⟩ | ⟨hno, hknown, hfits⟩
    · -- the line is left out
      rw [List.filter_cons_of_neg (by simp [hother]), List.filter_cons_of_neg (by simp [henc])]
      refine ⟨?_, ?_⟩
      · rw [ihok, List.forall_mem_cons]
        exact ⟨fun h => ⟨hfits, h⟩, fun h => h.2⟩
      · intro out hout
        obtain ⟨hsame, hcomments⟩ := ihout out hout
        refine ⟨hsame, ?_⟩
        intro x hx
        obtain ⟨r', hr', heq⟩ := hcomments x hx
        exact ⟨r', List.mem_cons_of_mem r hr', heq⟩
    · -- the line is converted
      have hnew : Ids.Recipient.new r.id r.comment =
          .ok ⟨r.id, r.comment, (Ids.shapeOk_of_tagged htagged).1⟩ := by
        rw [Ids.Recipient.new, dif_pos htagged]
      rw [List.filter_cons_of_pos (by simp [hknown])]
      simp only [List.mapM_cons, hnew, Except.mapError, ok_bind, bind_ok, pure_ok] at ihok ihout ⊢
      refine ⟨?_, ?_⟩
      · rw [List.forall_mem_cons, ← ihok]
        constructor
        · rintro ⟨_, out, hout, rfl⟩
          exact ⟨hfits, out, hout⟩
        · rintro ⟨-, out, hout⟩
          exact ⟨_, out, hout, rfl⟩
      · rintro _ ⟨out, hout, rfl⟩
        obtain ⟨hsame, hcomments⟩ := ihout out hout
        refine ⟨?_, ?_⟩
        · have hhead : (Ids.Recipient.reread ⟨r.id, r.comment, (Ids.shapeOk_of_tagged htagged).1⟩).id = r.id :=
            Ids.canonicalizeForRender_tagged htagged
          have hsort : Ids.Recipient.isEncryptionRecipient
              (Ids.Recipient.reread ⟨r.id, r.comment, (Ids.shapeOk_of_tagged htagged).1⟩) =
                isEncryptionRecipient r.id := by
            rw [henc]
            exact congrArg (fun id : Id => (id.format matches .pivyEcdhP256Pub | .ageX25519Pub)) hhead
          rw [Ids.encryptionRecipients] at hsame ⊢
          rw [List.map_cons, List.filter_cons, List.filter_cons, hsort]
          split
          · rw [List.map_cons, List.map_cons, hsame, hhead]
          · exact hsame
        · intro x hx
          rcases List.mem_cons.mp hx with rfl | hx
          · exact ⟨r, List.mem_cons_self, rfl⟩
          · obtain ⟨r', hr', heq⟩ := hcomments x hx
            exact ⟨r', List.mem_cons_of_mem r hr', heq⟩
    · -- the line is refused
      have hnew : ∃ e, Ids.Recipient.new r.id r.comment = .error e := by
        rw [Ids.Recipient.new, dif_neg (by simp [hno])]
        exact ⟨_, rfl⟩
      obtain ⟨e, hnew⟩ := hnew
      rw [List.filter_cons_of_pos (by simp [hknown])]
      simp only [List.mapM_cons, hnew, Except.mapError]
      refine ⟨?_, ?_⟩
      · refine iff_of_false ?_ ?_
        · rintro ⟨out, hout⟩
          cases hout
        · intro hall
          rw [hall r List.mem_cons_self] at hfits
          cases hfits
      · intro out hout
        cases hout

/-- The recipients of a document that was read stand for it once they are written. -/
theorem standsFor_converted {raw : Bytes} {doc : Document} (hdoc : Document.parse raw = .ok doc)
    {recipients : List Ids.Recipient} (h : convertedRecipients doc = .ok recipients) :
    StandsFor (strBytes (String.ofList (Ids.render recipients))) doc := by
  obtain ⟨hsame, hcomments⟩ := (converted_spec doc.recipients).2 recipients h
  have hread := (Document.parse_ok hdoc).1
  have hparse : Ids.parse (Ids.render recipients) = .ok (recipients.map Ids.Recipient.reread) := by
    apply Ids.parse_render_reread
    intro x hx text htext
    obtain ⟨r, hr, heq⟩ := hcomments x hx
    exact ((hread.recipients r hr).comment text (heq ▸ htext)).2
  refine ⟨_, _, fromUtf8_ok.mpr rfl, ?_, hsame⟩
  rw [String.toList_ofList]
  exact hparse

/-- The file of the path can be written. -/
def Call.Stores (h : Hashes) (c : Call) : Prop :=
  (cachePathFor h c).isSome = true ∧ c.recipientsWrite = .done

/-- What is written for a document that was read stands for it. -/
theorem recipientSetDoc_ok {raw : Bytes} {doc : Document} (hdoc : Document.parse raw = .ok doc)
    {r : Resolved} {w' : World} (hrun : recipientSetDocToRfc0003Cache h c doc w = (.ok r, w')) :
    (∀ r ∈ doc.recipients, LineFits r = true) ∧
      ∃ path file, r = .cache path ∧ w'.cache path = some file ∧ StandsFor file.contents doc := by
  rw [recipientSetDocToRfc0003Cache] at hrun
  rcases hconv : convertedRecipients doc with e | recipients
  · rw [hconv] at hrun
    cases hrun
  rw [hconv] at hrun
  refine ⟨(converted_spec doc.recipients).1.mp ⟨recipients, hconv⟩, ?_⟩
  rcases hpath : cachePathFor h c with _ | path
  · simp only [hpath] at hrun
    cases hrun
  simp only [hpath] at hrun
  rcases hwrite : writeCacheFile c c.recipientsWrite path
      (strBytes (String.ofList (Ids.render recipients))) w with ⟨_ | ⟨⟩, w''⟩
  · rw [hwrite] at hrun
    cases hrun
  · rw [hwrite] at hrun
    obtain ⟨hr, rfl⟩ := Prod.mk.inj hrun
    exact ⟨path, _, (Except.ok.inj hr).symm, writeCacheFile_done hwrite, standsFor_converted hdoc hconv⟩

/-- A document whose lines fit is written when the file can be. -/
theorem recipientSetDoc_succeeds (hstores : c.Stores h) {doc : Document}
    (hfits : ∀ r ∈ doc.recipients, LineFits r = true) :
    ∃ r w', recipientSetDocToRfc0003Cache h c doc w = (.ok r, w') := by
  obtain ⟨hpath, hwrite⟩ := hstores
  obtain ⟨recipients, hconv⟩ := (converted_spec doc.recipients).1.mpr hfits
  have hconv' : convertedRecipients doc = .ok recipients := hconv
  obtain ⟨path, hpath⟩ := Option.isSome_iff_exists.mp hpath
  simp only [recipientSetDocToRfc0003Cache, hconv', hpath, hwrite, writeCacheFile]
  exact ⟨_, _, rfl⟩

/-! ## Calls -/

/-- Bytes that are framed start with a boundary. -/
theorem boundary_isPrefixOf {raw : Bytes} {d : HyphenceDoc} (h : HyphenceDoc.parse raw = .ok d) :
    boundary.isPrefixOf raw = true := by
  obtain ⟨heads, tail, hlines, -, -⟩ := HyphenceDoc.parse_shape h
  rw [List.isPrefixOf_iff_prefix, ← HyphenceDoc.flatten_readLines raw, hlines]
  exact ⟨_, rfl⟩

/-- A document at the path is converted. -/
theorem resolve_document {raw : Bytes} {doc : Document} (hraw : c.raw = some raw)
    (hdoc : Document.parse raw = .ok doc) :
    resolvePiggyIdsPath h c w = recipientSetDocToRfc0003Cache h c doc w := by
  have hframe : boundary.isPrefixOf raw = true := by
    have hparse := hdoc
    simp only [Document.parse, bind_ok] at hparse
    obtain ⟨d, hd, -⟩ := hparse
    exact boundary_isPrefixOf hd
  rw [resolvePiggyIdsPath, hraw]
  dsimp only
  rw [if_neg (by simp [hframe])]
  rcases hptr : Pointer.parse raw with e | ptr
  · simp only [hdoc]
  · exact absurd hdoc (Pointer.not_document hptr doc)

/-- A pointer at the path is followed, and what it leads to is converted. -/
theorem resolve_pointer {raw : Bytes} {ptr : Pointer} (hraw : c.raw = some raw)
    (hptr : Pointer.parse raw = .ok ptr) :
    resolvePiggyIdsPath h c w =
      match pointerDocument h c ptr w with
      | (.error e, w) => (.error e, w)
      | (.ok doc, w) => recipientSetDocToRfc0003Cache h c doc w := by
  have hframe : boundary.isPrefixOf raw = true := by
    obtain ⟨d, hd, -⟩ := Pointer.parse_ok hptr
    exact boundary_isPrefixOf hd
  rw [resolvePiggyIdsPath, hraw]
  dsimp only
  have hnot : ¬ (!boundary.isPrefixOf raw) = true := by simp [hframe]
  refine (if_neg hnot).trans ?_
  generalize Pointer.parse raw = parsed at hptr ⊢
  subst hptr
  rfl

/-- What a call owes to a document and to a pointer. -/
structure Backed (h : Hashes) (w : World) (c : Call) : Prop where
  document : ∀ raw doc, c.raw = some raw → Document.parse raw = .ok doc → doc.isSealed = false →
    doc.encryptionRecipients ≠ [] → c.Stores h →
    ∃ path w' file, resolvePiggyIdsPath h c w = (.ok (.cache path), w') ∧ w'.cache path = some file ∧
      StandsFor file.contents doc
  pointer : ∀ raw ptr r w', c.raw = some raw → Pointer.parse raw = .ok ptr →
    resolvePiggyIdsPath h c w = (.ok r, w') →
    ∃ a ∈ w'.answers, ∃ doc path file, a.pointer = ptr ∧ resolvedRecipientSet a.bytes ptr = .ok doc ∧
      (a ∈ w.answers ∧ a.FreshAt c ∨ c.resolver ptr.kind ptr.locator = .ok a.bytes) ∧
      r = .cache path ∧ w'.cache path = some file ∧ StandsFor file.contents doc
  checked : ∀ a, (resolvePiggyIdsPath h c w).2.answers = w.answers ++ [a] →
    (∀ doc, resolvedRecipientSet a.bytes a.pointer ≠ .ok doc) →
    (resolvePiggyIdsPath h c w).2.cache = w.cache

/-- Every line of the document at the path fits a recipient file. -/
def Call.LinesFit (h : Hashes) (c : Call) : Prop :=
  ∀ raw doc, c.raw = some raw → Document.parse raw = .ok doc → doc.isSealed = false →
    doc.encryptionRecipients ≠ [] → c.Stores h → ∀ r ∈ doc.recipients, LineFits r = true

/-- No two of some pointers have one hash. -/
def NoCollision (h : Hashes) (pointers : List Pointer) : Prop :=
  ∀ p ∈ pointers, ∀ q ∈ pointers, h.pointer p = h.pointer q → p = q

theorem Backed.linesFit (hb : Backed h w c) : c.LinesFit h := by
  intro raw doc hraw hdoc hset hsome hstores
  obtain ⟨path, w', file, hrun, -⟩ := hb.document raw doc hraw hdoc hset hsome hstores
  rw [resolve_document hraw hdoc] at hrun
  exact (recipientSetDoc_ok hdoc hrun).1

/-- An answer that fails the check leaves the cache as it is. -/
theorem cache_of_failed {a : Answer}
    (hanswers : (resolvePiggyIdsPath h c w).2.answers = w.answers ++ [a])
    (hfailed : ∀ doc, resolvedRecipientSet a.bytes a.pointer ≠ .ok doc) :
    (resolvePiggyIdsPath h c w).2.cache = w.cache := by
  have hmore : ∀ answers : List Answer, answers = w.answers ++ [a] → answers ≠ w.answers := by
    rintro _ rfl heq
    exact absurd (congrArg List.length heq) (by simp)
  rw [resolvePiggyIdsPath] at hanswers ⊢
  rcases hraw : c.raw with _ | raw
  · rfl
  simp only [hraw] at hanswers ⊢
  split
  · rfl
  · next hframe =>
    rw [if_neg hframe] at hanswers
    rcases hptr : Pointer.parse raw with e | ptr
    · simp only [hptr] at hanswers ⊢
      rcases hdoc : Document.parse raw with e' | doc
      · dsimp only
        split <;> rfl
      · simp only [hdoc] at hanswers
        exact absurd (recipientSetDoc_answers h c doc w) (hmore _ hanswers)
    · simp only [hptr] at hanswers ⊢
      rcases pointerDocument_cases h c ptr w with ⟨e, heq⟩ | ⟨path, doc, -, -, heq⟩ |
        ⟨bytes, -, ⟨e, -, heq⟩ | ⟨path, doc, -, hcheck, heq⟩⟩
      · rw [heq]
      · rw [heq] at hanswers
        exact absurd (recipientSetDoc_answers h c doc w) (hmore _ hanswers)
      · rw [heq]
        rfl
      · -- The answer that came is one that passes.
        exfalso
        have hcame := writeCacheFile_answers c c.answerWrite path bytes
          (w.answered ⟨ptr, bytes, c.later⟩)
        rcases hwrite : writeCacheFile c c.answerWrite path bytes (w.answered ⟨ptr, bytes, c.later⟩) with
          ⟨_ | ⟨⟩, w'⟩
        · rw [heq, hwrite] at hanswers
          rw [hwrite] at hcame
          obtain rfl := List.singleton_inj.mp (List.append_cancel_left (hcame.symm.trans hanswers))
          exact hfailed doc hcheck
        · rw [heq, hwrite] at hanswers
          rw [hwrite] at hcame
          have hkept := (recipientSetDoc_answers h c doc w').symm.trans hanswers
          obtain rfl := List.singleton_inj.mp (List.append_cancel_left (hcame.symm.trans hkept))
          exact hfailed doc hcheck

/-- After any history a call serves the document or the pointer at its path exactly when every
line of the document fits. -/
theorem backed_iff (h : Hashes) (events : List CacheEvent) (c : Call)
    (hcollision : NoCollision h (pointersOf (events ++ [.called c]))) :
    Backed h (worldAfter h events) c ↔ c.LinesFit h := by
  refine ⟨Backed.linesFit, fun hfits => ⟨?_, ?_, fun a => cache_of_failed⟩⟩
  · intro raw doc hraw hdoc hset hsome hstores
    obtain ⟨r, w', hrun⟩ := recipientSetDoc_succeeds (w := worldAfter h events) hstores
      (hfits raw doc hraw hdoc hset hsome hstores)
    obtain ⟨-, path, file, rfl, hfile, hstands⟩ := recipientSetDoc_ok hdoc hrun
    exact ⟨path, w', file, (resolve_document hraw hdoc).trans hrun, hfile, hstands⟩
  · intro raw ptr r w' hraw hptr hrun
    obtain ⟨hs, hasked⟩ := sourced_worldAfter h events
    obtain ⟨-, hanswers, hok⟩ := hs.pointerDocument (c := c) ptr
    rw [resolve_pointer hraw hptr] at hrun
    rcases hpointer : pointerDocument h (c := c) ptr (worldAfter h events) with ⟨e | doc, w₁⟩
    · rw [hpointer] at hrun
      cases hrun
    rw [hpointer] at hrun hanswers hok
    obtain ⟨a, ha, hhash, hpassed, hsource⟩ := hok doc rfl
    -- The hash tells which pointer the answer was to.
    have hfound : c.pointer? = some ptr := by
      rw [Call.pointer?, hraw, Option.bind_some, hptr]
      rfl
    have hmem : ∀ q ∈ pointersOf events, q ∈ pointersOf (events ++ [.called c]) := by
      intro q hq
      rw [pointersOf, List.filterMap_append]
      exact List.mem_append_left _ hq
    have hself : ptr ∈ pointersOf (events ++ [.called c]) := by
      rw [pointersOf, List.filterMap_append]
      exact List.mem_append_right _ (List.mem_filterMap.mpr ⟨.called c, List.mem_cons_self, hfound⟩)
    have hptr' : a.pointer = ptr := by
      rcases hanswers a ha with hold | hnew
      · exact hcollision _ (hmem _ (hasked a hold)) _ hself hhash
      · exact hnew
    obtain ⟨hdoc, -, -⟩ := resolvedRecipientSet_ok.mp hpassed
    obtain ⟨-, path, file, rfl, hfile, hstands⟩ := recipientSetDoc_ok hdoc hrun
    have hkept : w'.answers = w₁.answers := by
      have hafter := recipientSetDoc_answers h c doc w₁
      rwa [show recipientSetDocToRfc0003Cache h c doc w₁ = _ from hrun] at hafter
    exact ⟨a, hkept ▸ ha, doc, path, file, hptr', hpassed, hsource, rfl, hfile, hstands⟩

/-- A call that finds bytes at a path, with a cache it can write and no resolver. -/
def sampleCall (raw : Bytes) : Call where
  piggyIds := ⟨"/store/piggy-ids"⟩
  raw := some raw
  xdgCacheHome := some ⟨"/cache"⟩
  home := none
  cacheDisabled := false
  now := 0
  cacheReadable := true
  resolver _ _ := .error "no resolver"
  later := 0
  pid := 1
  answerWrite := .done
  recipientsWrite := .done

def sampleHashes : Hashes where
  path _ := 0
  pointer p := UInt64.ofNat p.locator.length

def samplePointer (locator : List Char) : Pointer := ⟨"papi".toList, locator⟩

/-- The bytes of a pointer, which are its frame. -/
def samplePointerBytes (locator : List Char) : Bytes := (samplePointer locator).frame.marshalMetadata

private theorem pointer?_sample {locator : List Char} (h : '\n' ∉ locator) :
    (sampleCall (samplePointerBytes locator)).pointer? = some (samplePointer locator) := by
  have hframe : HyphenceDoc.parse (samplePointerBytes locator) = .ok (samplePointer locator).frame :=
    HyphenceDoc.parse_marshal rfl (Pointer.lineFeed_notMem_frame (p := samplePointer locator)
      (show '\n' ∉ "papi".toList by decide) h) (by
        simp [HyphenceDoc.marshal, samplePointerBytes, Pointer.frame])
  have hparse := Pointer.parse_of_frame (p := samplePointer locator)
    (validatePointerKind_ok.mpr
    (show "papi".toList ≠ [] ∧ '/' ∉ "papi".toList ∧ '\x00' ∉ "papi".toList by decide)) hframe
  simp only [Call.pointer?, sampleCall, Option.bind_some, hparse]
  rfl

/-- A pointer that is edited to another locator. -/
theorem backed_iff_sample :
    Backed sampleHashes
        (worldAfter sampleHashes [.called (sampleCall (samplePointerBytes "a".toList))])
        (sampleCall (samplePointerBytes "bc".toList)) ↔
      (sampleCall (samplePointerBytes "bc".toList)).LinesFit sampleHashes := by
  refine backed_iff sampleHashes [.called (sampleCall (samplePointerBytes "a".toList))]
    (sampleCall (samplePointerBytes "bc".toList)) ?_
  have hpointers : pointersOf ([.called (sampleCall (samplePointerBytes "a".toList))] ++
      [.called (sampleCall (samplePointerBytes "bc".toList))]) =
        [samplePointer "a".toList, samplePointer "bc".toList] := by
    simp only [pointersOf, List.cons_append, List.nil_append, List.filterMap_cons, List.filterMap_nil,
      pointer?_sample (show '\n' ∉ "a".toList by decide), pointer?_sample (show '\n' ∉ "bc".toList by decide)]
  rw [hpointers]
  unfold NoCollision
  decide

/-- A recipient set with some lines. -/
def sampleLines (bodies : List (List Char)) : Bytes :=
  boundary ++ ((docLines [] bodies typeTag).flatMap HyphenceDoc.marshalLine ++ boundary)

private theorem parse_sampleLines {bodies : List (List Char)} {rs : List Recipient}
    (hnl : ∀ body ∈ bodies, '\n' ∉ body)
    (h : List.Forall₂ (fun body r => parseRecipientLine body = .ok r) bodies rs)
    (hwrap : ∀ r ∈ rs, r.wrap = none) :
    Document.parse (sampleLines bodies) = .ok ⟨none, rs, [], none⟩ := by
  have hframe : HyphenceDoc.parse (sampleLines bodies) = .ok ⟨docLines [] bodies typeTag, []⟩ := by
    refine HyphenceDoc.parse_marshal (canonicalOrder_docLines _ _ _) ?_ ?_
    · intro l hl
      rw [docLines, List.map_nil, List.nil_append] at hl
      rcases List.mem_append.mp hl with hl | hl
      · obtain ⟨body, hbody, rfl⟩ := List.mem_map.mp hl
        exact hnl body hbody
      · obtain rfl := List.mem_singleton.mp hl
        decide
    · rw [HyphenceDoc.marshal, if_neg (by simp), HyphenceDoc.marshalMetadata, canonicalOrder_docLines]
      simp [sampleLines]
  have hloop := foldlM_dashes h {}
  have htype : parseTypeLine typeTag = .ok none := by
    have hsplit : splitOnceAt (· = '@') typeTag = none := splitOnceAt_none at_notMem_typeTag
    simp only [parseTypeLine, hsplit]
    rfl
  have hvalid : Document.validate ⟨none, rs, [], none⟩ = .ok () := by
    have hnone : rs.countP (·.wrap.isSome) = 0 := by
      rw [List.countP_eq_zero]
      intro r hr
      simp [hwrap r hr]
    simp [Document.validate, hnone]
  simp only [Document.parse, hframe, ok_bind, docLines, List.map_nil, List.nil_append,
    List.foldlM_append, hloop, List.foldlM_cons, readMetaLine, htype]
  change (Document.validate ⟨none, rs, [], none⟩ >>= fun _ => pure _) = _
  rw [hvalid, ok_bind]
  rfl

/-- A signature of a document over its own key, as a recipient line. -/
def sampleSignatureLine : List Char :=
  ("papi-doc-sig-v1@ecdsa_p256_sig-qyqszqgpqyqszqgpqyqszqgpqyqszqgpqyqszqgpqyqszqgpqyqszqg" ++
    "pqyqszqgpqyqszqgpqyqszqgpqyqszqgpqyqszqgpqyqszqgstahra").toList

/-- A line under a purpose that is registered but no recipient's keeps a set from being
converted. -/
theorem not_backed_signature :
    (∃ doc, Document.parse (sampleLines [sampleBareLine, sampleSignatureLine]) = .ok doc ∧
      doc.isSealed = false ∧ doc.encryptionRecipients ≠ []) ∧
    (sampleCall (sampleLines [sampleBareLine, sampleSignatureLine])).Stores sampleHashes ∧
    ¬ Backed sampleHashes (worldAfter sampleHashes [])
      (sampleCall (sampleLines [sampleBareLine, sampleSignatureLine])) := by
  obtain ⟨r, hr, hrshape⟩ : ∃ r, parseRecipientLine sampleBareLine = .ok r ∧
      (r.wrap, isEncryptionRecipient r.id) = (none, true) :=
    map_ok.mp (by decide +kernel : (fun r : Recipient => (r.wrap, isEncryptionRecipient r.id)) <$>
      parseRecipientLine sampleBareLine = .ok (none, true))
  obtain ⟨s, hs, hsshape⟩ : ∃ s, parseRecipientLine sampleSignatureLine = .ok s ∧
      (s.wrap, LineFits s) = (none, false) :=
    map_ok.mp (by decide +kernel : (fun s : Recipient => (s.wrap, LineFits s)) <$>
      parseRecipientLine sampleSignatureLine = .ok (none, false))
  obtain ⟨hrwrap, henc⟩ := Prod.mk.inj hrshape
  obtain ⟨hswrap, hfits⟩ := Prod.mk.inj hsshape
  have hparse : Document.parse (sampleLines [sampleBareLine, sampleSignatureLine]) =
      .ok ⟨none, [r, s], [], none⟩ := by
    have hnlKey : '\n' ∉ sampleBareLine := by decide +kernel
    have hnlSignature : '\n' ∉ sampleSignatureLine := by decide +kernel
    refine parse_sampleLines ?_ (.cons hr (.cons hs .nil)) ?_
    · exact List.forall_mem_cons.mpr ⟨hnlKey, List.forall_mem_singleton.mpr hnlSignature⟩
    · exact List.forall_mem_cons.mpr ⟨hrwrap, List.forall_mem_singleton.mpr hswrap⟩
  have hsome : (⟨none, [r, s], [], none⟩ : Document).encryptionRecipients ≠ [] :=
    List.ne_nil_of_mem (List.mem_filter.mpr ⟨List.mem_cons_self, henc⟩)
  have hstores : (sampleCall (sampleLines [sampleBareLine, sampleSignatureLine])).Stores sampleHashes :=
    ⟨rfl, rfl⟩
  refine ⟨⟨_, hparse, rfl, hsome⟩, hstores, ?_⟩
  intro hbacked
  have hline := hbacked.linesFit _ _ rfl hparse rfl hsome hstores s (by simp)
  rw [hfits] at hline
  cases hline

end Piggy.Pigpen.Cache
