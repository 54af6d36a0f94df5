import Piggy.Go.Invariant

/-!
# Binary forms and locks

An id has a binary form of purpose, format and data between zero bytes, and a lock, which is
a key with an id, has a binary and a text form of its own. Nothing in them says which fields
are empty: a null id has no bytes at all, and reading nothing leaves the receiver alone. So
what is read back depends on what the receiver held.
-/

namespace Piggy.Go.Markl

open Piggy.Core

/-! ## The codecs -/

/-- `Id.MarshalBinary`. -/
def Id.marshalBinary (id : Id) : Except String Bytes :=
  match id.format with
  | none => if id.data = [] ∧ id.purposeId = [] then .ok [] else .error "empty type"
  | some f => .ok (id.purposeId ++ 0 :: (f.id ++ 0 :: id.data))

/-- `IsNull` of the package: an id whose question panics counts as null. -/
def isNull (reg : Registry) (id : Id) : Bool :=
  match id.isNull reg with
  | .ok null => null
  | _ => true

/-- `Equals`: all null ids are equal, others by format id and data. -/
def equals (reg : Registry) (a b : Id) : Bool :=
  match isNull reg a, isNull reg b with
  | true, true => true
  | false, false =>
    (a.format.map Format.id).getD [] == (b.format.map Format.id).getD [] && a.data == b.data
  | _, _ => false

/-- What a key type does: its text, and setting a key from text. -/
structure KeyType (K ε : Type) where
  string : K → Bytes
  set : Bytes → K → Result ε Unit × K

/-- A key is set from the text of another one, whatever it was. -/
def KeyType.ReadsBack {K ε : Type} (keys : KeyType K ε) : Prop :=
  ∀ k old, ∃ k', keys.set (keys.string k) old = (.ok (), k') ∧ keys.string k' = keys.string k

/-- A key with the value it is locked to. -/
structure Lock (K : Type) where
  key : K
  value : Id

/-- The errors of locks. -/
inductive LockError (ε : Type) where
  | key (e : ε)
  | value (e : Error)
  | emptyTypeSignature (key : Bytes)
  | emptyByteMissing
  deriving DecidableEq

section

variable {K ε : Type} (reg : Registry) (t : CaseTables) (keys : KeyType K ε) (requireValue : Bool)

/-- How the setters of the two parts end. -/
def keyResult : Result ε Unit → Result (LockError ε) Unit
  | .ok _ => .ok ()
  | .error e => .error (.key e)
  | .panic => .panic

/-- An error of the value as one of the lock. -/
def valueResult : Result Error Unit → Result (LockError ε) Unit
  | .ok _ => .ok ()
  | .error e => .error (.value e)
  | .panic => .panic

/-- `Lock.Equals`. -/
def Lock.equals (a b : Lock K) : Bool :=
  keys.string a.key == keys.string b.key && Markl.equals reg a.value b.value

/-- `String` of the coder: the id of the lock goes in without its purpose. The formatter prints
something of its own for an id whose text panics. -/
def Lock.string (panicked : Bytes) (lock : Lock K) : Result (LockError ε) Bytes :=
  if lock.value.data = [] then
    if requireValue then .panic else .ok (keys.string lock.key)
  else
    match lock.value.string t with
    | .ok text => .ok (keys.string lock.key ++ Purpose.join :: text)
    | _ => .ok (keys.string lock.key ++ Purpose.join :: panicked)

/-- Sets the key, and on success the value. -/
def Lock.setBoth (key : Bytes) (setValue : Id → Outcome) (lock : Lock K) :
    Result (LockError ε) Unit × Lock K :=
  match keys.set key lock.key with
  | (.ok _, k) =>
    let (result, value) := setValue lock.value
    (valueResult result, ⟨k, value⟩)
  | (result, k) => (keyResult result, { lock with key := k })

/-- `Set` of the coder; without a join only the key is set. -/
def Lock.set (value : Bytes) (lock : Lock K) : Result (LockError ε) Unit × Lock K :=
  match cut Purpose.join value with
  | none => lock.setBoth keys value fun id => (.ok (), id)
  | some (left, right) => lock.setBoth keys left fun id => id.set reg t right

/-- `MarshalBinary` of the coder: the id goes in without its purpose, an empty one not at all.
Data without a format are a nil dereference. -/
def Lock.marshalBinary (lock : Lock K) : Result (LockError ε) Bytes :=
  if lock.value.data = [] then
    if requireValue then .error (.emptyTypeSignature (keys.string lock.key))
    else .ok (keys.string lock.key)
  else
    match lock.value.format with
    | none => .panic
    | some f => .ok (keys.string lock.key ++ 0 :: (f.id ++ 0 :: lock.value.data))

/-- `UnmarshalBinary` of the coder; without a zero byte only the key is set. -/
def Lock.unmarshalBinary (bites : Bytes) (lock : Lock K) : Result (LockError ε) Unit × Lock K :=
  if bites = [] then (.ok (), lock)
  else
    match cut 0 bites with
    | none => lock.setBoth keys bites fun id => (.ok (), id)
    | some (key, formatAndBytes) =>
      match keys.set key lock.key with
      | (.ok _, k) =>
        match cut 0 formatAndBytes with
        | none => (.error .emptyByteMissing, { lock with key := k })
        | some (format, valueBytes) =>
          let (result, value) := lock.value.reset.setMarklId reg format valueBytes
          (valueResult result, ⟨k, value⟩)
      | (result, k) => (keyResult result, { lock with key := k })

end

/-! ## What the mutators reach -/

/-- The ids a call takes from elsewhere. -/
def Op.sources : Op → List Id
  | .setDigest digest => [digest]
  | .resetWith src => [src]
  | .resetWithMarklId src => [src]
  | _ => []

/-- The ids that calls lead to from the zero id, whether they succeed or not. -/
inductive Id.Reached (reg : Registry) (t : CaseTables) : Id → Prop where
  | zero : Id.Reached reg t .zero
  | call {id : Id} (op : Op) (h : Id.Reached reg t id)
      (hsources : ∀ src ∈ op.sources, Id.Reached reg t src) : Id.Reached reg t (op.run reg t id).2

/-- A format is registered, and there are no data without one. -/
structure Id.Typed (reg : Registry) (id : Id) : Prop where
  registered : ∀ f, id.format = some f → reg.getFormatOrError f.id = .ok f
  data : id.format = none → id.data = []

section

variable {reg : Registry} {t : CaseTables}

theorem Id.Typed.zero : Id.zero.Typed reg := ⟨nofun, fun _ => rfl⟩

theorem Id.Typed.setPurposeId {id : Id} (h : id.Typed reg) (p : Bytes) :
    (id.setPurposeId p).Typed reg := ⟨h.registered, h.data⟩

/-- The setter of data touches nothing else. -/
theorem Id.setData_cases (bites : Bytes) (id : Id) :
    (id.setData bites).2 = id ∨ (id.setData bites).2 = { id with data := bites } := by
  rw [Id.setData]
  split
  · exact .inl rfl
  · split
    · exact .inl rfl
    · split
      · exact .inl rfl
      · exact .inr rfl

/-- Whatever format and data are given, a typed id is left. -/
theorem Id.typed_setMarklId (formatId bites : Bytes) (id : Id) :
    (id.setMarklId reg formatId bites).2.Typed reg := by
  rcases Id.setMarklId_cases reg formatId bites id with ⟨-, -, hres⟩ | ⟨-, -, e, hres⟩ | ⟨f, hf, hres⟩
  · rw [hres]
    exact .zero
  · rw [hres]
    exact .zero
  · rw [hres]
    refine ⟨?_, nofun⟩
    rintro g ⟨⟩
    exact (reg.getFormatOrError_spec hf.format).2.2.2.1

theorem Id.ReadsText.typed {decoder : Bytes → Result Blech32.Error (Bytes × Bytes)}
    {read : Bytes → Id → Outcome} (hread : Id.ReadsText reg decoder read) (value : Bytes) {id : Id}
    (hid : id.Typed reg) : (read value id).2.Typed reg := by
  by_cases hempty : value = []
  · rw [hempty, hread.empty]
    exact .zero
  rcases hsplit : Purpose.splitPurposeSlot value with ⟨_ | slot, body⟩
  · obtain ⟨hok, herr⟩ := hread.noSlot value body hempty hsplit
    rcases hdec : decoder body with ⟨formatId, data⟩ | e | _
    · rw [hok formatId data hdec]
      exact typed_setMarklId formatId data id
    · obtain ⟨e', he'⟩ := herr e hdec
      rw [he']
      exact hid
    · exact absurd hdec (hread.returns body)
  · rcases hslot : Purpose.unquotePurpose slot with e | p
    · rw [hread.slotMalformed value slot body e hempty hsplit hslot]
      exact hid
    · obtain ⟨hok, herr⟩ := hread.slotTaken value slot body p hempty hsplit hslot
      rcases hdec : decoder body with ⟨formatId, data⟩ | e | _
      · rw [hok formatId data hdec]
        exact typed_setMarklId formatId data _
      · obtain ⟨e', he'⟩ := herr e hdec
        rw [he']
        exact hid.setPurposeId p
      · exact absurd hdec (hread.returns body)

/-- A call keeps an id typed. -/
theorem Op.typed_run (op : Op) {id : Id} (hid : id.Typed reg)
    (hsources : ∀ src ∈ op.sources, src.Typed reg) : (op.run reg t id).2.Typed reg := by
  cases op with
  | set value => exact (Id.readsText_set reg t).typed value hid
  | unmarshalText bites => exact (Id.readsText_unmarshalText reg t).typed bites hid
  | unmarshalBinary bites =>
    simp only [run, Id.unmarshalBinary]
    by_cases hempty : bites = []
    · rw [if_pos hempty]
      exact hid
    rw [if_neg hempty]
    rcases cut 0 bites with _ | ⟨p, rest⟩
    · exact hid
    · dsimp only
      rcases cut 0 rest with _ | ⟨formatId, data⟩
      · exact hid.setPurposeId p
      · exact Id.typed_setMarklId formatId data _
  | setMarklId formatId bites => exact Id.typed_setMarklId formatId bites id
  | setDigest digest =>
    simp only [run, Id.setDigest]
    rcases digest.format with _ | f
    · exact hid.setPurposeId _
    · exact Id.typed_setMarklId f.id digest.data _
  | setPurposeId value => exact hid.setPurposeId value
  | setPurposeFromWireSlot slot =>
    simp only [run, Id.setPurposeFromWireSlot]
    rcases Purpose.unquotePurpose slot with e | p
    · exact hid
    · exact hid.setPurposeId p
  | setHexBytes formatId bites =>
    rcases hformat : reg.getFormatOrError formatId with e | f
    · simp only [run, Id.setHexBytes, hformat]
      exact hid
    · simp only [run, Id.setHexBytes, hformat]
      split
      · exact hid
      · split
        · refine ⟨?_, (fun h => by cases h)⟩
          rintro g ⟨⟩
          exact (reg.getFormatOrError_spec hformat).2.2.2.1
        · exact .zero
  | reset => exact .zero
  | resetWithPurpose purpose => exact ⟨(fun _ h => by cases h), fun _ => rfl⟩
  | resetWith src =>
    have hsrc := hsources src (List.mem_singleton_self _)
    simp only [run, Id.resetWith]
    split
    · exact ⟨hsrc.registered, fun _ => rfl⟩
    · next hdata =>
      have hkeep : ∀ data, Id.Typed reg ⟨src.purposeId, src.format, data⟩ :=
        fun data => ⟨hsrc.registered, fun h => absurd (hsrc.data h) hdata⟩
      have hset := Id.setData_cases src.data ⟨src.purposeId, src.format, id.data⟩
      generalize Id.setData src.data ⟨src.purposeId, src.format, id.data⟩ = outcome at hset
      obtain ⟨result, back⟩ := outcome
      have hback : back.Typed reg := by
        rcases hset with rfl | rfl
        · exact hkeep id.data
        · exact hkeep src.data
      rcases result with _ | e | _
      · exact hback
      · exact hback
      · exact hback
  | resetWithMarklId src =>
    simp only [run, Id.resetWithMarklId]
    split
    · exact hid
    · generalize hset : (id.setPurposeId src.purposeId).setMarklId reg
        ((src.format.map Format.id).getD []) src.data = outcome
      have htyped := @Id.typed_setMarklId reg ((src.format.map Format.id).getD []) src.data
        (id.setPurposeId src.purposeId)
      rw [hset] at htyped
      rcases outcome with ⟨_ | e | _, back⟩
      · exact htyped
      · exact htyped
      · exact htyped

theorem Id.Reached.typed {id : Id} (h : id.Reached reg t) : id.Typed reg := by
  induction h with
  | zero => exact .zero
  | call op _ _ ih ihsources => exact op.typed_run ih ihsources

/-! ## Ids -/

/-- What an id is marshaled to is read back over a receiver. -/
def Id.ReadsBack (reg : Registry) (id receiver : Id) : Prop :=
  ∀ bytes, id.marshalBinary = .ok bytes → receiver.unmarshalBinary reg bytes = (.ok (), id)

/-- A null id is read into a null one. Another one has a purpose without a zero byte that admits
its format, and data of the format's size, or none for a receiver that has none. -/
def Id.Kept (reg : Registry) (id receiver : Id) : Prop :=
  match id.format with
  | none => id.purposeId = [] → receiver = .zero
  | some f => 0 ∉ id.purposeId ∧ reg.validatePurposeAndFormatId id.purposeId f.id = .ok () ∧
      if id.data = [] then receiver.data = [] else id.data.length = f.size

/-- What the setter of format and data does with the name of a registered format. -/
theorem Id.setMarklId_eq_ok {f : Format} (hf : reg.getFormatOrError f.id = .ok f) {data : Bytes}
    {id back : Id} : id.setMarklId reg f.id data = (.ok (), back) ↔
      reg.validatePurposeAndFormatId id.purposeId f.id = .ok () ∧
        (data ≠ [] → data.length = f.size) ∧
        back = ⟨id.purposeId, some f, if data = [] then id.data else data⟩ := by
  rcases Id.setMarklId_cases reg f.id data id with ⟨he, -⟩ | ⟨-, hno, e, hres⟩ | ⟨g, hg, hres⟩
  · exact absurd he (reg.getFormatOrError_spec hf).1
  · rw [hres]
    refine iff_of_false nofun ?_
    rintro ⟨hpurpose, hsize, -⟩
    exact hno f ⟨hf, hpurpose, hsize⟩
  · obtain rfl : f = g := Except.ok.inj (hf.symm.trans hg.format)
    rw [hres]
    constructor
    · rintro ⟨⟩
      exact ⟨hg.purpose, hg.size, rfl⟩
    · rintro ⟨-, -, rfl⟩
      rfl

/-- A successful setter of format and data keeps the purpose or drops it. -/
theorem Id.purposeId_of_setMarklId {formatId data : Bytes} {id back : Id}
    (h : id.setMarklId reg formatId data = (.ok (), back)) :
    back.purposeId = id.purposeId ∨ back.purposeId = [] := by
  rcases Id.setMarklId_cases reg formatId data id with ⟨-, -, hres⟩ | ⟨-, -, e, hres⟩ | ⟨g, -, hres⟩
  · rw [hres] at h
    cases h
    exact .inr rfl
  · rw [hres] at h
    cases h
  · rw [hres] at h
    cases h
    exact .inl rfl

theorem zero_not_mem_formatId {f : Format} (hf : reg.getFormatOrError f.id = .ok f) : 0 ∉ f.id := by
  intro hmem
  exact absurd ((reg.getFormatOrError_spec hf).2.2.1 0 hmem) (by decide)

/-- The binary form of an id without a zero byte in its purpose. -/
theorem Id.unmarshalBinary_fields {p : Bytes} {f : Format}
    (hf : reg.getFormatOrError f.id = .ok f) (hp : 0 ∉ p) (data : Bytes) (receiver : Id) :
    receiver.unmarshalBinary reg (p ++ 0 :: (f.id ++ 0 :: data)) =
      (receiver.setPurposeId p).setMarklId reg f.id data := by
  rw [Id.unmarshalBinary, if_neg (by simp), cut_eq_some.mpr ⟨rfl, hp⟩]
  dsimp only
  rw [cut_eq_some.mpr ⟨rfl, zero_not_mem_formatId hf⟩]

/-- A zero byte in the purpose ends it early. -/
theorem Id.unmarshalBinary_split {p rest : Bytes} {receiver back : Id} {data : Bytes}
    (hp : 0 ∉ p) (h : receiver.unmarshalBinary reg (p ++ 0 :: (rest ++ 0 :: data)) = (.ok (), back)) :
    back.purposeId = p ∨ back.purposeId = [] := by
  rw [Id.unmarshalBinary, if_neg (by simp), cut_eq_some.mpr ⟨rfl, hp⟩] at h
  dsimp only at h
  rcases hcut : cut 0 (rest ++ 0 :: data) with _ | ⟨formatId, bites⟩
  · exact absurd (List.mem_append_right rest List.mem_cons_self) (cut_eq_none.mp hcut)
  · rw [hcut] at h
    exact Id.purposeId_of_setMarklId h

/-- An id is read back exactly over the receivers it is kept by. -/
theorem Id.readsBack_iff {id receiver : Id} (hid : id.Typed reg) :
    id.ReadsBack reg receiver ↔ id.Kept reg receiver := by
  rw [Id.ReadsBack, Id.marshalBinary, Id.Kept]
  rcases hformat : id.format with _ | f
  · have hdata := hid.data hformat
    dsimp only
    by_cases hp : id.purposeId = []
    · have hzero : id = .zero := by
        obtain ⟨p, format, data⟩ := id
        dsimp only at hformat hdata hp
        subst hformat hdata hp
        rfl
      rw [if_pos ⟨hdata, hp⟩, hzero]
      constructor
      · intro h _
        exact congrArg Prod.snd (h [] rfl)
      · rintro h bytes ⟨⟩
        rw [h rfl]
        rfl
    · rw [if_neg fun h => hp h.2]
      exact iff_of_true nofun fun h => absurd h hp
  · have hf := hid.registered f hformat
    have hfields : (⟨id.purposeId, some f, id.data⟩ : Id) = id := by rw [← hformat]
    dsimp only
    constructor
    · intro h
      have hread := h _ rfl
      have hp : 0 ∉ id.purposeId := by
        intro hmem
        obtain ⟨p, rest, heq, hp⟩ := List.eq_append_cons_of_mem hmem
        rw [heq, List.append_assoc, List.cons_append] at hread
        rcases Id.unmarshalBinary_split hp hread with hkept | hnil
        · rw [hkept] at heq
          exact absurd (congrArg List.length heq) (by simp)
        · rw [hnil] at hmem
          cases hmem
      rw [Id.unmarshalBinary_fields hf hp, Id.setMarklId_eq_ok hf] at hread
      obtain ⟨hpurpose, hsize, hback⟩ := hread
      refine ⟨hp, hpurpose, ?_⟩
      split
      · next hdata =>
        rw [if_pos hdata] at hback
        exact (congrArg Id.data hback).symm.trans hdata
      · next hdata => exact hsize hdata
    · rintro ⟨hp, hpurpose, hdata⟩ bytes ⟨⟩
      rw [Id.unmarshalBinary_fields hf hp, Id.setMarklId_eq_ok hf]
      split at hdata
      · next hempty =>
        refine ⟨hpurpose, fun h => absurd hempty h, ?_⟩
        rw [if_pos hempty, Id.setPurposeId]
        dsimp only
        rw [hdata, ← hempty, hfields]
      · next hsome =>
        refine ⟨hpurpose, fun _ => hdata, ?_⟩
        rw [if_neg hsome, Id.setPurposeId]
        exact hfields.symm

/-! ## Equality -/

/-- Format and data decide whether an id is null. -/
theorem isNull_congr {a b : Id} (hformat : a.format = b.format) (hdata : a.data = b.data) :
    isNull reg a = isNull reg b := by
  rw [isNull, isNull, Id.isNull, Id.isNull, hformat, hdata]

/-- Ids with the same format and data are equal. -/
theorem equals_of_same {a b : Id} (hformat : a.format = b.format) (hdata : a.data = b.data) :
    equals reg a b = true := by
  rw [equals, isNull_congr hformat hdata, hformat, hdata]
  rcases isNull reg b with _ | _
  · simp
  · rfl

/-- An id without data equals the null ids. -/
theorem equals_of_empty {a b : Id} (h : a.data = []) : equals reg a b = isNull reg b := by
  have hnull : isNull reg a = true := by rw [isNull, Id.isNull, if_pos h]
  rw [equals, hnull]
  rcases isNull reg b with _ | _
  · rfl
  · rfl

end

/-! ## Locks -/

section

variable {K ε : Type} {reg : Registry} {t : CaseTables} {keys : KeyType K ε} {requireValue : Bool}
  {lock receiver : Lock K}

variable (reg t keys requireValue) in
/-- The binary form of a lock is read back over a receiver. -/
def Lock.BinaryReadsBack (lock receiver : Lock K) : Prop :=
  ∀ bytes, lock.marshalBinary keys requireValue = .ok bytes →
    ∃ back, receiver.unmarshalBinary reg keys bytes = (.ok (), back) ∧
      lock.equals reg keys back = true

variable (reg t keys requireValue) in
/-- The text of a lock is read back over a receiver. -/
def Lock.TextReadsBack (panicked : Bytes) (lock receiver : Lock K) : Prop :=
  ∀ text, lock.string t keys requireValue panicked = .ok text →
    ∃ back, receiver.set reg t keys text = (.ok (), back) ∧ lock.equals reg keys back = true

variable (reg keys requireValue) in
/-- A lock without a value, if there is a form for it, is read into one whose value is null, and
whose key is empty where this one's is; another one has data of its format's size. -/
def Lock.BinaryKept (lock receiver : Lock K) : Prop :=
  if lock.value.data = [] then
    requireValue = false → isNull reg receiver.value = true ∧
      (keys.string lock.key = [] → keys.string receiver.key = [])
  else ∃ f, lock.value.format = some f ∧ lock.value.data.length = f.size

variable (reg requireValue) in
/-- The text of a lock without a value, if there is one, is read into a lock whose value is
null; of another one into a lock whose value has a purpose that admits the format. -/
def Lock.TextKept (lock receiver : Lock K) : Prop :=
  if lock.value.data = [] then requireValue = false → isNull reg receiver.value = true
  else ∃ f, lock.value.format = some f ∧ lock.value.data.length = f.size ∧
    reg.validatePurposeAndFormatId receiver.value.purposeId f.id = .ok ()

/-- Equality with a lock whose key was read back. -/
theorem Lock.equals_iff {back : Lock K} (hkey : keys.string back.key = keys.string lock.key) :
    lock.equals reg keys back = true ↔ Markl.equals reg lock.value back.value = true := by
  rw [Lock.equals, hkey, beq_self_eq_true, Bool.true_and]

/-- With only the key set the value has to be null where the lock has none. -/
theorem Lock.setBoth_readsBack (hkeys : keys.ReadsBack) (hdata : lock.value.data = []) :
    (∃ back, receiver.setBoth keys (keys.string lock.key) (fun id => (.ok (), id)) =
      (.ok (), back) ∧ lock.equals reg keys back = true) ↔ isNull reg receiver.value = true := by
  obtain ⟨k, hset, hkey⟩ := hkeys lock.key receiver.key
  rw [Lock.setBoth, hset]
  constructor
  · rintro ⟨back, ⟨⟩, hequal⟩
    rwa [Lock.equals_iff hkey, equals_of_empty hdata] at hequal
  · intro hnull
    refine ⟨_, rfl, ?_⟩
    rwa [Lock.equals_iff hkey, equals_of_empty hdata]

variable (receiver) in
/-- A value that is set with format and data equals the one they come from, if it is set. -/
theorem Lock.setBoth_value_readsBack (hkeys : keys.ReadsBack) {f : Format}
    (hf : reg.getFormatOrError f.id = .ok f) (hformat : lock.value.format = some f)
    (hdata : lock.value.data ≠ []) (start : Id → Id) :
    (∃ back, receiver.setBoth keys (keys.string lock.key)
        (fun id => (start id).setMarklId reg f.id lock.value.data) = (.ok (), back) ∧
      lock.equals reg keys back = true) ↔
      lock.value.data.length = f.size ∧
        reg.validatePurposeAndFormatId (start receiver.value).purposeId f.id = .ok () := by
  obtain ⟨k, hset, hkey⟩ := hkeys lock.key receiver.key
  rw [Lock.setBoth, hset]
  dsimp only
  constructor
  · rintro ⟨back, hback, -⟩
    generalize houtcome : (start receiver.value).setMarklId reg f.id lock.value.data = outcome
      at hback
    rcases outcome with ⟨_ | e | _, value⟩
    · obtain ⟨hpurpose, hsize, -⟩ := (Id.setMarklId_eq_ok hf).mp houtcome
      exact ⟨hsize hdata, hpurpose⟩
    · cases hback
    · cases hback
  · rintro ⟨hsize, hpurpose⟩
    rw [(Id.setMarklId_eq_ok hf).mpr ⟨hpurpose, fun _ => hsize, rfl⟩]
    refine ⟨_, rfl, ?_⟩
    rw [Lock.equals_iff hkey]
    exact equals_of_same hformat (if_neg hdata).symm

/-- Key, format and data behind zero bytes. -/
theorem Lock.unmarshalBinary_fields {key : Bytes} (hkey : 0 ∉ key) {f : Format}
    (hf : reg.getFormatOrError f.id = .ok f) (data : Bytes) :
    receiver.unmarshalBinary reg keys (key ++ 0 :: (f.id ++ 0 :: data)) =
      receiver.setBoth keys key fun id => id.reset.setMarklId reg f.id data := by
  rw [Lock.unmarshalBinary, if_neg (by simp), cut_eq_some.mpr ⟨rfl, hkey⟩]
  dsimp only
  rw [cut_eq_some.mpr ⟨rfl, zero_not_mem_formatId hf⟩]
  rfl

/-- The binary form of a lock is read back exactly over the receivers it is kept by. -/
theorem Lock.binaryReadsBack_iff (hkeys : keys.ReadsBack) (hlock : lock.value.Typed reg)
    (hkey : 0 ∉ keys.string lock.key) :
    lock.BinaryReadsBack reg keys requireValue receiver ↔
      lock.BinaryKept reg keys requireValue receiver := by
  rw [Lock.BinaryReadsBack, Lock.marshalBinary, Lock.BinaryKept]
  by_cases hdata : lock.value.data = []
  · rw [if_pos hdata, if_pos hdata]
    cases requireValue with
    | true => exact iff_of_true nofun nofun
    | false =>
      have hbytes : ∀ P : Bytes → Prop, (∀ bytes, (Result.ok (keys.string lock.key) :
          Result (LockError ε) Bytes) = .ok bytes → P bytes) ↔ P (keys.string lock.key) := by
        intro P
        exact ⟨fun h => h _ rfl, fun h bytes heq => Result.ok.inj heq ▸ h⟩
      rw [if_neg nofun, hbytes, Lock.unmarshalBinary, cut_eq_none.mpr hkey]
      by_cases hempty : keys.string lock.key = []
      · -- Nothing is read, so the receiver itself has to be equal.
        rw [if_pos hempty]
        constructor
        · rintro ⟨back, ⟨⟩, hequal⟩ -
          rw [Lock.equals, Bool.and_eq_true, beq_iff_eq, equals_of_empty hdata] at hequal
          exact ⟨hequal.2, fun _ => hequal.1.symm.trans hempty⟩
        · intro h
          obtain ⟨hnull, hsame⟩ := h rfl
          refine ⟨receiver, rfl, ?_⟩
          rw [Lock.equals, Bool.and_eq_true, beq_iff_eq, equals_of_empty hdata]
          exact ⟨hempty.trans (hsame hempty).symm, hnull⟩
      · rw [if_neg hempty]
        refine (Lock.setBoth_readsBack hkeys hdata).trans ?_
        exact ⟨fun hnull _ => ⟨hnull, fun h => absurd h hempty⟩, fun h => (h rfl).1⟩
  · rw [if_neg hdata, if_neg hdata]
    rcases hformat : lock.value.format with _ | f
    · exact absurd (hlock.data hformat) hdata
    · have hf := hlock.registered f hformat
      have hpurpose : reg.validatePurposeAndFormatId receiver.value.reset.purposeId f.id = .ok () :=
        if_pos (.inr rfl)
      have hiff := Lock.setBoth_value_readsBack receiver hkeys hf hformat hdata Id.reset
      dsimp only
      constructor
      · intro h
        have hread := h _ rfl
        rw [Lock.unmarshalBinary_fields hkey hf] at hread
        exact ⟨f, rfl, (hiff.mp hread).1⟩
      · rintro ⟨g, ⟨⟩, hsize⟩ bytes ⟨⟩
        rw [Lock.unmarshalBinary_fields hkey hf]
        exact hiff.mpr ⟨hsize, hpurpose⟩

/-- The text of a lock is read back exactly over the receivers it is kept by. -/
theorem Lock.textReadsBack_iff (hkeys : keys.ReadsBack) (hlock : lock.value.Typed reg)
    (hkey : Purpose.join ∉ keys.string lock.key) (panicked : Bytes) :
    lock.TextReadsBack reg t keys requireValue panicked receiver ↔
      lock.TextKept reg requireValue receiver := by
  rw [Lock.TextReadsBack, Lock.string, Lock.TextKept]
  by_cases hdata : lock.value.data = []
  · rw [if_pos hdata, if_pos hdata]
    cases requireValue with
    | true => exact iff_of_true nofun nofun
    | false =>
      have hread : receiver.set reg t keys (keys.string lock.key) =
          receiver.setBoth keys (keys.string lock.key) fun id => (.ok (), id) := by
        rw [Lock.set, cut_eq_none.mpr hkey]
      rw [if_neg nofun]
      constructor
      · intro h _
        have hback := h _ rfl
        rw [hread] at hback
        exact (Lock.setBoth_readsBack hkeys hdata).mp hback
      · rintro h text ⟨⟩
        rw [hread]
        exact (Lock.setBoth_readsBack hkeys hdata).mpr (h rfl)
  · rw [if_neg hdata, if_neg hdata]
    rcases hformat : lock.value.format with _ | f
    · exact absurd (hlock.data hformat) hdata
    · have hf := hlock.registered f hformat
      obtain ⟨text, henc, hne, hslot, hdec⟩ := @encode_registered reg t f hf lock.value.data
      have hstring : lock.value.string t = .ok (utf8 text) := by
        rw [Id.string, if_neg hdata, hformat, Option.map_some, Option.getD_some, Id.mustEncode, henc]
      have hsplit := Purpose.splitPurposeSlot_utf8 text
      rw [hslot] at hsplit
      have hset : ∀ id : Id, id.set reg t (utf8 text) = id.setMarklId reg f.id lock.value.data := by
        intro id
        rw [Id.set, if_neg hne, hsplit]
        simp only [Option.map_none, Id.setWithoutPurpose, hdec]
      have hread : receiver.set reg t keys (keys.string lock.key ++ Purpose.join :: utf8 text) =
          receiver.setBoth keys (keys.string lock.key)
            fun id => id.setMarklId reg f.id lock.value.data := by
        rw [Lock.set, cut_eq_some.mpr ⟨rfl, hkey⟩]
        simp only [hset]
      have hiff := Lock.setBoth_value_readsBack receiver hkeys hf hformat hdata id
      rw [hstring]
      constructor
      · intro h
        have hback := h _ rfl
        rw [hread] at hback
        obtain ⟨hsize, hpurpose⟩ := hiff.mp hback
        exact ⟨f, rfl, hsize, hpurpose⟩
      · rintro ⟨g, ⟨⟩, hsize, hpurpose⟩ text ⟨⟩
        rw [hread]
        exact hiff.mpr ⟨hsize, hpurpose⟩

/-- Binary forms and texts are read back exactly over the receivers they are kept by: where a
form leaves a field out, the receiver has to have it empty already. -/
theorem codecs_readBack_iff (reg : Registry) (t : CaseTables) (keys : KeyType K ε)
    (hkeys : keys.ReadsBack) :
    (∀ id : Id, id.Reached reg t → id.Typed reg) ∧
    (∀ id receiver : Id, id.Typed reg → (id.ReadsBack reg receiver ↔ id.Kept reg receiver)) ∧
    ∀ requireValue (lock receiver : Lock K), lock.value.Typed reg →
      (0 ∉ keys.string lock.key →
        (lock.BinaryReadsBack reg keys requireValue receiver ↔
          lock.BinaryKept reg keys requireValue receiver)) ∧
      (Purpose.join ∉ keys.string lock.key → ∀ panicked,
        (lock.TextReadsBack reg t keys requireValue panicked receiver ↔
          lock.TextKept reg requireValue receiver)) :=
  ⟨fun _ h => h.typed, fun _ _ hid => Id.readsBack_iff hid, fun _ _ _ hlock =>
    ⟨fun hkey => Lock.binaryReadsBack_iff hkeys hlock hkey,
      fun hkey panicked => Lock.textReadsBack_iff hkeys hlock hkey panicked⟩⟩

end

/-! ## A used receiver -/

/-- Keys that are text. -/
def textKeys : KeyType Bytes Empty := ⟨id, fun value _ => (.ok (), value)⟩

theorem textKeys_readsBack : textKeys.ReadsBack := fun k _ => ⟨k, rfl, rfl⟩

/-- An id with a nonce. -/
def usedId : Id := ⟨[], some ⟨utf8 "nonce".toList, 32⟩, List.replicate 32 1⟩

set_option maxRecDepth 20000 in
theorem usedId_reached : usedId.Reached production asciiTables := by
  have hrun : ((Op.setMarklId (utf8 "nonce".toList) (List.replicate 32 1)).run production asciiTables
      Id.zero).2 = usedId := by decide
  rw [← hrun]
  exact .call _ .zero (fun src hsrc => absurd hsrc List.not_mem_nil)

/-- A nonce is read back over another one, and so is a lock of it. -/
theorem codecs_readBack_used :
    ∃ other : Id, other ≠ usedId ∧ usedId.ReadsBack production other ∧
      Lock.BinaryReadsBack production textKeys false ⟨[107], usedId⟩ ⟨[], other⟩ ∧
      Lock.TextReadsBack production asciiTables textKeys false [] ⟨[107], usedId⟩ ⟨[], other⟩ := by
  obtain ⟨htyped, hid, hlock⟩ :=
    codecs_readBack_iff production asciiTables textKeys textKeys_readsBack
  have hused := htyped usedId usedId_reached
  obtain ⟨hbinary, htext⟩ := hlock false ⟨[107], usedId⟩
    ⟨[], { usedId with data := List.replicate 32 2 }⟩ hused
  refine ⟨{ usedId with data := List.replicate 32 2 }, by decide, ?_, ?_, ?_⟩
  · exact (hid _ _ hused).mpr ⟨by decide, by decide, by decide⟩
  · exact (hbinary (by decide)).mpr ⟨_, rfl, by decide⟩
  · exact (htext (by decide) []).mpr ⟨_, rfl, by decide, by decide⟩

/-- A null id and a lock without a value are not read back over a used receiver: nothing tells
it to drop what it holds. -/
theorem not_readsBack_used :
    Id.zero.Reached production asciiTables ∧ usedId.Reached production asciiTables ∧
    Id.zero.marshalBinary = .ok [] ∧ usedId.unmarshalBinary production [] = (.ok (), usedId) ∧
    ¬ Id.zero.ReadsBack production usedId ∧
    ¬ Lock.BinaryReadsBack production textKeys false ⟨[107], Id.zero⟩ ⟨[107], usedId⟩ ∧
    ¬ Lock.TextReadsBack production asciiTables textKeys false [] ⟨[107], Id.zero⟩
      ⟨[107], usedId⟩ := by
  refine ⟨.zero, usedId_reached, rfl, rfl, ?_, ?_, ?_⟩
  · intro h
    exact absurd (congrArg Prod.snd (h [] rfl)) (by decide)
  · intro h
    obtain ⟨back, ⟨⟩, hequal⟩ := h [107] rfl
    exact absurd hequal (by decide)
  · intro h
    obtain ⟨back, ⟨⟩, hequal⟩ := h [107] rfl
    exact absurd hequal (by decide)

end Piggy.Go.Markl
