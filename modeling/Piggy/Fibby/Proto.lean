import Piggy.Box.Wire

/-!
# The protocol of the reader daemon

A client sends a header with the size of a body and a command, then the body. The bodies are
structs of little-endian words; a reader name takes 128 bytes. The answer is such a struct
without a header. What a struct is written to is read back from these bytes.
-/

namespace Piggy.Fibby

open Piggy.Core Piggy.Box

/-! ## Words -/

/-- The little-endian bytes of a word. -/
def u32Le (w : UInt32) : Bytes := (toBe 4 w.toNat).reverse

/-- The word at an offset. -/
def u32At (b : Bytes) (offset : Nat) : UInt32 :=
  UInt32.ofNat (ofBe ((b.drop offset).take 4).reverse)

/-- A signed word, little-endian. -/
def i32Le (w : Int32) : Bytes := u32Le w.toUInt32

/-- The signed word at an offset. -/
def i32At (b : Bytes) (offset : Nat) : Int32 := (u32At b offset).toInt32

@[simp] theorem length_u32Le (w : UInt32) : (u32Le w).length = 4 := by
  simp [u32Le]

@[simp] theorem length_i32Le (w : Int32) : (i32Le w).length = 4 := length_u32Le _

/-- A word is read where it was written. -/
@[simp] theorem u32At_u32Le_append (w : UInt32) (rest : Bytes) : u32At (u32Le w ++ rest) 0 = w := by
  rw [u32At, List.drop_zero, List.take_left' (length_u32Le w), u32Le, List.reverse_reverse,
    ofBe_toBe]
  apply UInt32.toNat_inj.mp
  have hlt := w.toNat_lt
  rw [UInt32.toNat_ofNat']
  omega

@[simp] theorem u32At_u32Le (w : UInt32) : u32At (u32Le w) 0 = w := by
  simpa using u32At_u32Le_append w []

@[simp] theorem i32At_i32Le_append (w : Int32) (rest : Bytes) : i32At (i32Le w ++ rest) 0 = w := by
  simp [i32At, i32Le]

theorem drop_past {a b : Bytes} {offset : Nat} (h : a.length ≤ offset) :
    (a ++ b).drop offset = b.drop (offset - a.length) := by
  rw [List.drop_append, List.drop_of_length_le h, List.nil_append]

/-- Behind a part that ends before it, a word is read from what follows. -/
theorem u32At_append {a b : Bytes} {offset : Nat} (h : a.length ≤ offset) :
    u32At (a ++ b) offset = u32At b (offset - a.length) := by
  rw [u32At, u32At, drop_past h]

theorem i32At_append {a b : Bytes} {offset : Nat} (h : a.length ≤ offset) :
    i32At (a ++ b) offset = i32At b (offset - a.length) := congrArg _ (u32At_append h)

/-- Overwrites the bytes from an offset on. -/
def splice (b : Bytes) (offset : Nat) (new : Bytes) : Bytes :=
  b.take offset ++ new ++ b.drop (offset + new.length)

/-! ## Names -/

def maxReadername : Nat := 128

/-- A text in a field of a width, cut so that the last byte is zero. -/
def writeCstr (width : Nat) (s : String) : Bytes :=
  let bytes := (strBytes s).take (width - 1)
  bytes ++ List.replicate (width - bytes.length) 0

/-- The text in a field, up to the first zero. -/
def readCstr (field : Bytes) : String := String.ofList (fromUtf8Lossy (field.takeWhile (· ≠ 0)))

theorem length_writeCstr {width : Nat} (s : String) (h : 0 < width) :
    (writeCstr width s).length = width := by
  simp only [writeCstr, List.length_append, List.length_take, List.length_replicate]
  omega

/-- A text that fits its field and holds no zero is read back. -/
theorem readCstr_writeCstr {width : Nat} {s : String} (hlen : (strBytes s).length < width)
    (hzero : 0 ∉ strBytes s) : readCstr (writeCstr width s) = s := by
  have htake : (strBytes s).take (width - 1) = strBytes s := List.take_of_length_le (by omega)
  have hne : ∀ b ∈ strBytes s, decide (b ≠ 0) = true := by
    intro b hb
    rw [decide_eq_true_eq]
    rintro rfl
    exact hzero hb
  have hpad : (List.replicate (width - (strBytes s).length) (0 : UInt8)).takeWhile
      (· ≠ 0) = [] := by
    obtain ⟨m, hm⟩ : ∃ m, width - (strBytes s).length = m + 1 := ⟨width - (strBytes s).length - 1,
      by omega⟩
    rw [hm, List.replicate_succ, List.takeWhile_cons_of_neg (by simp)]
  rw [readCstr, writeCstr, htake, List.takeWhile_append_of_pos hne, hpad, List.append_nil,
    fromUtf8Lossy, fromUtf8_ok.mpr rfl]
  exact String.ofList_toList

/-! ## Commands -/

/-- The commands of the protocol. -/
inductive Command where
  | establishContext
  | releaseContext
  | listReaders
  | connect
  | reconnect
  | disconnect
  | beginTransaction
  | endTransaction
  | transmit
  | control
  | status
  | getStatusChange
  | cancel
  | cancelTransaction
  | getAttrib
  | setAttrib
  | version
  | getReadersState
  | waitReaderStateChange
  | stopWaitingReaderStateChange
  | getReaderEvents
  | getReadersStateSize
  | getReadersStateArray
  deriving DecidableEq

/-- The command of a code. -/
def Command.fromU32 (v : UInt32) : Option Command :=
  match v.toNat with
  | 0x01 => some .establishContext
  | 0x02 => some .releaseContext
  | 0x03 => some .listReaders
  | 0x04 => some .connect
  | 0x05 => some .reconnect
  | 0x06 => some .disconnect
  | 0x07 => some .beginTransaction
  | 0x08 => some .endTransaction
  | 0x09 => some .transmit
  | 0x0A => some .control
  | 0x0B => some .status
  | 0x0C => some .getStatusChange
  | 0x0D => some .cancel
  | 0x0E => some .cancelTransaction
  | 0x0F => some .getAttrib
  | 0x10 => some .setAttrib
  | 0x11 => some .version
  | 0x12 => some .getReadersState
  | 0x13 => some .waitReaderStateChange
  | 0x14 => some .stopWaitingReaderStateChange
  | 0x15 => some .getReaderEvents
  | 0x16 => some .getReadersStateSize
  | 0x17 => some .getReadersStateArray
  | _ => none

/-- No message is longer, nor what follows one. -/
def maxBody : Nat := 1024 * 1024

def protocolVersionMajor : Int32 := 4
def protocolVersionMinor : Int32 := 6

/-! ## Structs -/

/-- The body of CMD_VERSION. -/
structure VersionStruct where
  major : Int32
  minor : Int32
  rv : UInt32
  deriving DecidableEq

namespace VersionStruct

def wireLen : Nat := 12

/-- The bytes of a message. -/
def toBytes (s : VersionStruct) : Bytes := i32Le s.major ++ (i32Le s.minor ++ u32Le s.rv)

/-- Nothing when the body is too short. -/
def fromBytes (b : Bytes) : Option VersionStruct :=
  if b.length < wireLen then none else some ⟨i32At b 0, i32At b 4, u32At b 8⟩

theorem fromBytes_toBytes (s : VersionStruct) : fromBytes s.toBytes = some s := by
  simp [fromBytes, toBytes, wireLen, i32At_append, u32At_append]

end VersionStruct

/-- The body of ESTABLISH_CONTEXT. -/
structure EstablishStruct where
  dwScope : UInt32
  hContext : UInt32
  rv : UInt32
  deriving DecidableEq

namespace EstablishStruct

def wireLen : Nat := 12

/-- The bytes of a message. -/
def toBytes (s : EstablishStruct) : Bytes := u32Le s.dwScope ++ (u32Le s.hContext ++ u32Le s.rv)

/-- Nothing when the body is too short. -/
def fromBytes (b : Bytes) : Option EstablishStruct :=
  if b.length < wireLen then none else some ⟨u32At b 0, u32At b 4, u32At b 8⟩

theorem fromBytes_toBytes (s : EstablishStruct) : fromBytes s.toBytes = some s := by
  simp [fromBytes, toBytes, wireLen, u32At_append]

end EstablishStruct

/-- The body of TRANSMIT. -/
structure TransmitStruct where
  hCard : Int32
  ioSendPciProtocol : UInt32
  ioSendPciLength : UInt32
  cbSendLength : UInt32
  ioRecvPciProtocol : UInt32
  ioRecvPciLength : UInt32
  pcbRecvLength : UInt32
  rv : UInt32
  deriving DecidableEq

namespace TransmitStruct

def wireLen : Nat := 32

/-- The bytes of a message. -/
def toBytes (s : TransmitStruct) : Bytes :=
  i32Le s.hCard ++ (u32Le s.ioSendPciProtocol ++ (u32Le s.ioSendPciLength ++
    (u32Le s.cbSendLength ++ (u32Le s.ioRecvPciProtocol ++ (u32Le s.ioRecvPciLength ++
      (u32Le s.pcbRecvLength ++ u32Le s.rv))))))

/-- Nothing when the body is too short. -/
def fromBytes (b : Bytes) : Option TransmitStruct :=
  if b.length < wireLen then none
  else some ⟨i32At b 0, u32At b 4, u32At b 8, u32At b 12, u32At b 16, u32At b 20, u32At b 24,
    u32At b 28⟩

theorem fromBytes_toBytes (s : TransmitStruct) : fromBytes s.toBytes = some s := by
  simp [fromBytes, toBytes, wireLen, u32At_append]

end TransmitStruct

/-- The body of CONNECT. -/
structure ConnectStruct where
  hContext : UInt32
  szReader : String
  dwShareMode : UInt32
  dwPreferredProtocols : UInt32
  hCard : Int32
  dwActiveProtocol : UInt32
  rv : UInt32
  deriving DecidableEq

namespace ConnectStruct

def wireLen : Nat := 4 + maxReadername + 4 + 4 + 4 + 4 + 4

/-- The bytes of a message, the name in a field of fixed width. -/
def toBytes (s : ConnectStruct) : Bytes :=
  u32Le s.hContext ++ (writeCstr maxReadername s.szReader ++ (u32Le s.dwShareMode ++
    (u32Le s.dwPreferredProtocols ++ (i32Le s.hCard ++ (u32Le s.dwActiveProtocol ++
      u32Le s.rv)))))

/-- Nothing when the body is too short. -/
def fromBytes (b : Bytes) : Option ConnectStruct :=
  if b.length < wireLen then none
  else
    let o := 4 + maxReadername
    some ⟨u32At b 0, readCstr ((b.drop 4).take maxReadername), u32At b o, u32At b (o + 4),
      i32At b (o + 8), u32At b (o + 12), u32At b (o + 16)⟩

theorem fromBytes_toBytes {s : ConnectStruct} (hlen : (strBytes s.szReader).length < maxReadername)
    (hzero : 0 ∉ strBytes s.szReader) : fromBytes s.toBytes = some s := by
  have hname : (writeCstr maxReadername s.szReader).length = maxReadername :=
    length_writeCstr _ (by decide)
  have hread : readCstr (((toBytes s).drop 4).take maxReadername) = s.szReader := by
    rw [toBytes, List.drop_left' (length_u32Le _), List.take_left' hname,
      readCstr_writeCstr hlen hzero]
  have hsize : ¬ (toBytes s).length < wireLen := by
    simp only [toBytes, wireLen, List.length_append, length_u32Le, length_i32Le, hname]
    omega
  rw [fromBytes, if_neg hsize]
  dsimp only
  rw [hread]
  simp only [maxReadername] at hname ⊢
  simp [toBytes, maxReadername, u32At_append, i32At_append, hname]

end ConnectStruct

/-- A handle, an argument and a result: the bodies of DISCONNECT and END_TRANSACTION. -/
structure HandleArgRv where
  handle : Int32
  arg : UInt32
  rv : UInt32
  deriving DecidableEq

namespace HandleArgRv

def wireLen : Nat := 12

/-- The bytes of a message. -/
def toBytes (s : HandleArgRv) : Bytes := i32Le s.handle ++ (u32Le s.arg ++ u32Le s.rv)

/-- Nothing when the body is too short. -/
def fromBytes (b : Bytes) : Option HandleArgRv :=
  if b.length < wireLen then none else some ⟨i32At b 0, u32At b 4, u32At b 8⟩

theorem fromBytes_toBytes (s : HandleArgRv) : fromBytes s.toBytes = some s := by
  simp [fromBytes, toBytes, wireLen, u32At_append]

end HandleArgRv

/-- A handle and a result: the bodies of BEGIN_TRANSACTION, STATUS and CANCEL. -/
structure HandleRv where
  handle : Int32
  rv : UInt32
  deriving DecidableEq

namespace HandleRv

def wireLen : Nat := 8

/-- The bytes of a message. -/
def toBytes (s : HandleRv) : Bytes := i32Le s.handle ++ u32Le s.rv

/-- Nothing when the body is too short. -/
def fromBytes (b : Bytes) : Option HandleRv :=
  if b.length < wireLen then none else some ⟨i32At b 0, u32At b 4⟩

theorem fromBytes_toBytes (s : HandleRv) : fromBytes s.toBytes = some s := by
  simp [fromBytes, toBytes, wireLen, u32At_append]

end HandleRv

/-! ## The state of the readers -/

def maxReadersContexts : Nat := 16

def maxAtrSize : Nat := 33

/-- A row of the table of readers. -/
structure ReaderState where
  readerName : String
  eventCounter : UInt32
  readerState : UInt32
  readerSharing : Int32
  cardAtr : Bytes
  cardProtocol : UInt32
  deriving DecidableEq

namespace ReaderState

def wireLen : Nat := 184

/-- The field of an ATR, filled up to a multiple of four. -/
def atrField (atr : Bytes) : Bytes := atr ++ List.replicate (36 - atr.length) 0

/-- The bytes of a row. -/
def toBytes (s : ReaderState) : Bytes :=
  let atr := s.cardAtr.take maxAtrSize
  writeCstr maxReadername s.readerName ++ (u32Le s.eventCounter ++ (u32Le s.readerState ++
    (i32Le s.readerSharing ++ (atrField atr ++ (u32Le (UInt32.ofNat atr.length) ++
      u32Le s.cardProtocol)))))

/-- Nothing when the row is too short. -/
def fromBytes (b : Bytes) : Option ReaderState :=
  if b.length < wireLen then none
  else
    let atrLen := min (u32At b 176).toNat maxAtrSize
    some ⟨readCstr (b.take maxReadername), u32At b 128, u32At b 132, i32At b 136,
      (b.drop 140).take atrLen, u32At b 180⟩

theorem length_atrField {atr : Bytes} (h : atr.length ≤ maxAtrSize) :
    (atrField atr).length = 36 := by
  rw [maxAtrSize] at h
  rw [atrField, List.length_append, List.length_replicate]
  omega

theorem length_toBytes (s : ReaderState) : s.toBytes.length = wireLen := by
  have hname : (writeCstr maxReadername s.readerName).length = 128 := length_writeCstr _ (by decide)
  have hatr := length_atrField (List.length_take_le maxAtrSize s.cardAtr)
  simp only [toBytes, List.length_append, hname, length_u32Le, length_i32Le, hatr, wireLen]

theorem u32At_toBytes (s : ReaderState) (rest : Bytes) :
    u32At (s.toBytes ++ rest) 128 = s.eventCounter := by
  have hname : (writeCstr maxReadername s.readerName).length = 128 := length_writeCstr _ (by decide)
  rw [toBytes, List.append_assoc, u32At_append hname.le, hname, Nat.sub_self, List.append_assoc]
  exact u32At_u32Le_append _ _

/-- A reader whose name and ATR fit is read back. -/
theorem fromBytes_toBytes {s : ReaderState} (hlen : (strBytes s.readerName).length < maxReadername)
    (hzero : 0 ∉ strBytes s.readerName) (hatr : s.cardAtr.length ≤ maxAtrSize) :
    fromBytes s.toBytes = some s := by
  have hname : (writeCstr maxReadername s.readerName).length = maxReadername :=
    length_writeCstr _ (by decide)
  have hread : readCstr (s.toBytes.take maxReadername) = s.readerName := by
    rw [toBytes, List.take_left' hname, readCstr_writeCstr hlen hzero]
  have htake : s.cardAtr.take maxAtrSize = s.cardAtr := List.take_of_length_le hatr
  have hfield := length_atrField hatr
  have hsize : (UInt32.ofNat s.cardAtr.length).toNat = s.cardAtr.length := by
    rw [maxAtrSize] at hatr
    rw [UInt32.toNat_ofNat']
    omega
  rw [maxReadername] at hname
  have hlength : u32At s.toBytes 176 = UInt32.ofNat s.cardAtr.length := by
    simp [toBytes, htake, u32At_append, maxReadername, hname, hfield]
  have hbytes : (s.toBytes.drop 140).take s.cardAtr.length = s.cardAtr := by
    simp [toBytes, htake, drop_past, maxReadername, hname, atrField]
  rw [fromBytes, if_neg (by rw [length_toBytes]; exact lt_irrefl _)]
  dsimp only
  rw [hread, hlength, hsize, Nat.min_eq_left hatr, hbytes]
  simp [toBytes, htake, u32At_append, i32At_append, maxReadername, hname, hfield]

end ReaderState

/-- The table of the readers. What is not used is zero. -/
def readersStateArray (states : List ReaderState) : Bytes :=
  let used := states.take maxReadersContexts
  used.flatMap ReaderState.toBytes ++
    List.replicate ((maxReadersContexts - used.length) * ReaderState.wireLen) 0

theorem length_flatMap_toBytes (states : List ReaderState) :
    (states.flatMap ReaderState.toBytes).length = states.length * ReaderState.wireLen := by
  induction states with
  | nil => rfl
  | cons s states ih =>
    rw [List.flatMap_cons, List.length_append, ih, ReaderState.length_toBytes, List.length_cons]
    ring

theorem length_readersStateArray (states : List ReaderState) :
    (readersStateArray states).length = maxReadersContexts * ReaderState.wireLen := by
  rw [readersStateArray, List.length_append, length_flatMap_toBytes, List.length_replicate,
    ← Nat.add_mul, List.length_take]
  congr 1
  omega

/-- The event counter of a reader in the table. -/
def eventCounterAt (array : Bytes) (slot : Nat) : UInt32 :=
  u32At array (slot * ReaderState.wireLen + 128)

theorem eventCounterAt_flatMap {states : List ReaderState} {slot : Nat} {s : ReaderState}
    (h : states[slot]? = some s) (rest : Bytes) :
    eventCounterAt (states.flatMap ReaderState.toBytes ++ rest) slot = s.eventCounter := by
  induction states generalizing slot with
  | nil => cases h
  | cons first states ih =>
    rw [List.flatMap_cons, List.append_assoc]
    cases slot with
    | zero =>
      cases h
      rw [eventCounterAt, Nat.zero_mul, Nat.zero_add, ReaderState.u32At_toBytes]
    | succ slot =>
      have hskip : (slot + 1) * ReaderState.wireLen + 128 - ReaderState.wireLen =
          slot * ReaderState.wireLen + 128 := by
        rw [Nat.succ_mul]
        omega
      have hle : first.toBytes.length ≤ (slot + 1) * ReaderState.wireLen + 128 := by
        rw [ReaderState.length_toBytes, Nat.succ_mul]
        omega
      rw [eventCounterAt, u32At_append hle, ReaderState.length_toBytes, hskip]
      exact ih (by simpa using h)

theorem eventCounterAt_readersStateArray {states : List ReaderState} {slot : Nat} {s : ReaderState}
    (h : states[slot]? = some s) (hslot : slot < maxReadersContexts) :
    eventCounterAt (readersStateArray states) slot = s.eventCounter := by
  apply eventCounterAt_flatMap
  rw [List.getElem?_take_of_lt hslot, h]

/-! ## Constants -/

namespace Scope

def system : UInt32 := 2

end Scope

namespace Protocol

def undefined : UInt32 := 0
def t1 : UInt32 := 2

end Protocol

namespace ReaderFlags

def absent : UInt32 := 0x0002
def present : UInt32 := 0x0004
def powered : UInt32 := 0x0010
def negotiable : UInt32 := 0x0020

end ReaderFlags

namespace Scard

def success : UInt32 := 0x00000000
def invalidHandle : UInt32 := 0x80100003
def unknownReader : UInt32 := 0x80100009
def sharingViolation : UInt32 := 0x8010000B
def noSmartcard : UInt32 := 0x8010000C
def invalidValue : UInt32 := 0x80100011
def noService : UInt32 := 0x8010001D

end Scard

end Piggy.Fibby
