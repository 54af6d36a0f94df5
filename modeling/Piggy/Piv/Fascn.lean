import Piggy.Box.Wire

/-!
# The FASC-N

A FASC-N is a string of symbols of five bits each: four data bits, the lowest first, and a bit that
makes the number of ones odd. It is packed into bytes without gaps, so most symbols straddle two
bytes. The last symbol carries the exclusive or of the data bits of all the others.
-/

namespace Piggy.Piv

open Piggy.Core Piggy.Box

/-- The errors of the decoder. -/
inductive FascnError where
  | unexpectedEnd
  | illegalSymbol (v : UInt8)
  | unexpectedStartSentinel
  | missingStartSentinel
  | missingEndSentinel
  | badOrgCategory (d : List Char)
  | badAssociation (d : List Char)
  | lrcMismatch
  deriving DecidableEq

/-- How a decoding ends without a value: with an error of its own, or by a read out of bounds, where
the program stops. -/
inductive FascnFault where
  | error (e : FascnError)
  | panicked
  deriving DecidableEq

/-- The categories of organizations. -/
inductive OrgCategory where
  | federal
  | state
  | commercial
  | foreign
  deriving DecidableEq

/-- The category of a digit. -/
def OrgCategory.fromDigit (d : List Char) : Except FascnError OrgCategory :=
  match d.head? with
  | some '1' => .ok .federal
  | some '2' => .ok .state
  | some '3' => .ok .commercial
  | some '4' => .ok .foreign
  | _ => .error (.badOrgCategory d)

/-- What the holder is to the organization. -/
inductive Association where
  | employee
  | civil
  | executive
  | uniformed
  | contractor
  | affiliate
  | beneficiary
  deriving DecidableEq

/-- The association of a digit. -/
def Association.fromDigit (d : List Char) : Except FascnError Association :=
  match d.head? with
  | some '1' => .ok .employee
  | some '2' => .ok .civil
  | some '3' => .ok .executive
  | some '4' => .ok .uniformed
  | some '5' => .ok .contractor
  | some '6' => .ok .affiliate
  | some '7' => .ok .beneficiary
  | _ => .error (.badAssociation d)

/-- A decoded FASC-N. -/
structure Fascn where
  agency : List Char
  system : List Char
  crednum : List Char
  cs : List Char
  ici : List Char
  pi : List Char
  oc : OrgCategory
  oi : List Char
  poa : Association
  deriving DecidableEq

/-- What a card that was never personalised has. -/
def Fascn.zero : Fascn where
  agency := ['0', '0', '0', '0']
  system := ['0', '0', '0', '0']
  crednum := ['0', '0', '0', '0', '0', '0']
  cs := ['0']
  ici := ['1']
  pi := ['0', '0', '0', '0', '0', '0', '0', '0', '0', '0']
  oc := .commercial
  oi := ['0', '0', '0', '0']
  poa := .employee

/-! ## Reading symbols -/

/-- What a symbol stands for. -/
inductive BcdSymbol where
  | digit (c : Char)
  | startSentinel
  | fieldSeparator
  | endSentinel
  deriving DecidableEq

/-- The symbol of five bits. -/
def decodeSymbol (v : UInt8) : Except FascnError BcdSymbol :=
  if v = 0x01 then .ok (.digit '0')
  else if v = 0x10 then .ok (.digit '1')
  else if v = 0x08 then .ok (.digit '2')
  else if v = 0x19 then .ok (.digit '3')
  else if v = 0x04 then .ok (.digit '4')
  else if v = 0x15 then .ok (.digit '5')
  else if v = 0x0d then .ok (.digit '6')
  else if v = 0x1c then .ok (.digit '7')
  else if v = 0x02 then .ok (.digit '8')
  else if v = 0x13 then .ok (.digit '9')
  else if v = 0x1a then .ok .startSentinel
  else if v = 0x16 then .ok .fieldSeparator
  else if v = 0x1f then .ok .endSentinel
  else .error (.illegalSymbol v)

/-- A reader of five bits at a time, with the check sum so far. -/
structure BcdReader where
  data : Bytes
  bit : Nat
  lrc : UInt8
  deriving DecidableEq

/-- A program that reads. -/
abbrev Reading (α : Type) := StateT BcdReader (Except FascnFault) α

namespace Reading

variable {α β : Type}

theorem bind_run (x : Reading α) (f : α → Reading β) (r : BcdReader) :
    (x >>= f) r = x r >>= fun p => f p.1 p.2 := rfl

/-- A computation that reads nothing. -/
def ofExcept (x : Except FascnError α) : Reading α := fun r =>
  match x with
  | .error e => .error (.error e)
  | .ok a => .ok (a, r)

end Reading

namespace BcdReader

/-- A reader at the start of data. -/
def new (data : Bytes) : BcdReader := ⟨data, 0, 0⟩

/-- The number of bits, as the machine computes it from the number of bytes. -/
def bitLen (r : BcdReader) : Nat := r.data.length * 8 % 2 ^ 64

/-- The bits of a symbol, one by one. -/
def readBits : Nat → UInt8 → Reading UInt8
  | 0, v => pure v
  | n + 1, v => fun r =>
    match r.data[r.bit / 8]? with
    | none => .error .panicked
    | some byte =>
      let b := (byte >>> (7 - UInt8.ofNat (r.bit % 8))) &&& 1
      readBits n ((v <<< 1) ||| b) { r with bit := r.bit + 1 }

/-- The next five bits. -/
def read5Raw : Reading (Option UInt8) := fun r =>
  if r.bitLen < r.bit + 5 then .ok (none, r)
  else (readBits 5 0 r).map fun p => (some p.1, p.2)

/-- The next five bits, which must be there. -/
def read5 : Reading UInt8 := do
  match ← read5Raw with
  | none => Reading.ofExcept (.error .unexpectedEnd)
  | some v => pure v

/-- The next symbol, which enters the check sum. -/
def readSymbol : Reading BcdSymbol := do
  let v ← read5
  modify fun r => { r with lrc := r.lrc ^^^ (v &&& 0x1e) }
  Reading.ofExcept (decodeSymbol v)

/-- The loop of a field. Every turn takes five bits, so the bits bound the number of turns. -/
def readFieldLoop (limit : Nat) : Nat → List Char → Reading (List Char × Option BcdSymbol)
  | 0, _ => Reading.ofExcept (.error .unexpectedEnd)
  | turns + 1, s => do
    match ← readSymbol with
    | .startSentinel => Reading.ofExcept (.error .unexpectedStartSentinel)
    | .fieldSeparator => pure (s, some .fieldSeparator)
    | .endSentinel => pure (s, some .endSentinel)
    | .digit c =>
      if limit ≠ 0 ∧ limit ≤ (s ++ [c]).length then pure (s ++ [c], none)
      else readFieldLoop limit turns (s ++ [c])

/-- The digits up to a separator or the limit, and the separator if there was one. -/
def readField (limit : Nat) : Reading (List Char × Option BcdSymbol) := fun r =>
  readFieldLoop limit (r.data.length * 8 + 1) [] r

/-- The check symbol, which is not counted in. -/
def checkLrc : Reading Unit := do
  let v ← read5
  let r ← get
  if v &&& 0x1e ≠ r.lrc then Reading.ofExcept (.error .lrcMismatch) else pure ()

end BcdReader

open BcdReader

/-- A decoding begins with the start sentinel. -/
def readStart : Reading Unit := do
  match ← readSymbol with
  | .startSentinel => pure ()
  | _ => Reading.ofExcept (.error .missingStartSentinel)

/-- The last symbol is the end sentinel. -/
def checkEnd (poaTerm : Option BcdSymbol) : Except FascnError Unit :=
  if poaTerm = some .endSentinel then .ok () else .error .missingEndSentinel

/-- Everything in front of the check symbol. -/
def decodeFields : Reading Fascn := do
  readStart
  let (agency, _) ← readField 5
  let (system, _) ← readField 5
  let (crednum, _) ← readField 7
  let (cs, _) ← readField 2
  let (ici, _) ← readField 2
  let (pi, _) ← readField 10
  let (oc, _) ← readField 1
  let (oi, _) ← readField 4
  let (poa, poaTerm) ← readField 2
  let oc ← Reading.ofExcept (OrgCategory.fromDigit oc)
  let poa ← Reading.ofExcept (Association.fromDigit poa)
  Reading.ofExcept (checkEnd poaTerm)
  pure { agency, system, crednum, cs, ici, pi, oc, oi, poa }

/-- Nothing but zero bytes, as many as a FASC-N may have. -/
def isZeroFascn (data : Bytes) : Bool :=
  decide (7 ≤ data.length) && decide (data.length ≤ 25) && data.all (· == 0)

/-- `decode`. -/
def decodeFascn (data : Bytes) : Except FascnFault Fascn :=
  if isZeroFascn data then .ok Fascn.zero
  else
    (do
      let fascn ← decodeFields
      checkLrc
      pure fascn : Reading Fascn).run' (BcdReader.new data)

/-! ## Bits -/

/-- A bit of a byte string, the highest of the first byte first. -/
def bitOf (data : Bytes) (p : Nat) : Bool :=
  (data[p / 8]?.getD 0).toNat.testBit (7 - p % 8)

/-- The bits from a place on. -/
def bitsAt (data : Bytes) : Nat → Nat → List Bool
  | _, 0 => []
  | p, n + 1 => bitOf data p :: bitsAt data (p + 1) n

/-- The number that bits make. -/
def codeOf (bits : List Bool) (v : UInt8) : UInt8 :=
  bits.foldl (fun v b => (v <<< 1) ||| if b then 1 else 0) v

/-- The symbol that starts at a place. -/
def codeAt (data : Bytes) (p : Nat) : UInt8 := codeOf (bitsAt data p 5) 0

theorem shifted_bit (byte : UInt8) {i : Nat} (hi : i < 8) :
    (byte >>> (7 - UInt8.ofNat i)) &&& 1 = if byte.toNat.testBit (7 - i) then 1 else 0 := by
  have hall : ∀ i : Fin 8, ∀ n : Fin 256, (UInt8.ofNat n >>> (7 - UInt8.ofNat i)) &&& 1 =
      if (UInt8.ofNat n).toNat.testBit (7 - i) then 1 else 0 := by
    decide +kernel
  have h := hall ⟨i, hi⟩ ⟨byte.toNat, byte.toNat_lt⟩
  rwa [UInt8.ofNat_toNat] at h

namespace BcdReader

/-- As long as there are bits left, the reader collects them. -/
theorem readBits_eq {r : BcdReader} {n : Nat} (h : r.bit + n ≤ r.data.length * 8) (v : UInt8) :
    readBits n v r = .ok (codeOf (bitsAt r.data r.bit n) v, { r with bit := r.bit + n }) := by
  induction n generalizing r v with
  | zero => rfl
  | succ n ih =>
    have hlt : r.bit / 8 < r.data.length := by omega
    have hget : r.data[r.bit / 8]? = some r.data[r.bit / 8] := List.getElem?_eq_getElem hlt
    have hbit := shifted_bit r.data[r.bit / 8] (Nat.mod_lt r.bit (by decide : 0 < 8))
    rw [readBits]
    dsimp only
    rw [hget]
    dsimp only
    rw [hbit, ih (by dsimp only; omega), bitsAt, codeOf, codeOf, List.foldl_cons, bitOf, hget,
      Option.getD_some, Nat.add_assoc, Nat.add_comm 1 n]

theorem bitLen_le (r : BcdReader) : r.bitLen ≤ r.data.length * 8 := Nat.mod_le _ _

/-- Five bits are read when they are there. -/
theorem read5_eq {r : BcdReader} (h : r.bit + 5 ≤ r.bitLen) :
    read5 r = .ok (codeAt r.data r.bit, { r with bit := r.bit + 5 }) := by
  have hraw : read5Raw r =
      .ok (some (codeAt r.data r.bit), { r with bit := r.bit + 5 }) := by
    rw [read5Raw, if_neg (Nat.not_lt.mpr h), readBits_eq (Nat.le_trans h r.bitLen_le)]
    rfl
  rw [read5, Reading.bind_run, hraw]
  rfl

theorem read5_end {r : BcdReader} (h : r.bitLen < r.bit + 5) :
    read5 r = .error (.error .unexpectedEnd) := by
  have hraw : read5Raw r = .ok (none, r) := by
    rw [read5Raw, if_pos h]
  rw [read5, Reading.bind_run, hraw]
  rfl

/-- The reader behind a symbol. -/
def step (r : BcdReader) (v : UInt8) : BcdReader :=
  { r with bit := r.bit + 5, lrc := r.lrc ^^^ (v &&& 0x1e) }

theorem readSymbol_eq {r : BcdReader} (h : r.bit + 5 ≤ r.bitLen) :
    readSymbol r = Reading.ofExcept (decodeSymbol (codeAt r.data r.bit))
      (r.step (codeAt r.data r.bit)) := by
  rw [readSymbol, Reading.bind_run, read5_eq h]
  rfl

theorem readSymbol_end {r : BcdReader} (h : r.bitLen < r.bit + 5) :
    readSymbol r = .error (.error .unexpectedEnd) := by
  rw [readSymbol, Reading.bind_run, read5_end h]
  rfl

theorem readSymbol_ok {r r' : BcdReader} {s : BcdSymbol} (h : readSymbol r = .ok (s, r')) :
    r.bit + 5 ≤ r.bitLen ∧ decodeSymbol (codeAt r.data r.bit) = .ok s ∧
      r' = r.step (codeAt r.data r.bit) := by
  by_cases hroom : r.bit + 5 ≤ r.bitLen
  · rw [readSymbol_eq hroom] at h
    rcases hsym : decodeSymbol (codeAt r.data r.bit) with e | t
    · rw [hsym] at h
      cases h
    · rw [hsym] at h
      cases h
      exact ⟨hroom, rfl, rfl⟩
  · rw [readSymbol_end (Nat.lt_of_not_le hroom)] at h
    cases h

theorem checkLrc_eq {r : BcdReader} (h : r.bit + 5 ≤ r.bitLen) :
    checkLrc r = if codeAt r.data r.bit &&& 0x1e ≠ r.lrc then .error (.error .lrcMismatch)
      else .ok ((), { r with bit := r.bit + 5 }) := by
  rw [checkLrc, Reading.bind_run, read5_eq h, ok_bind, Reading.bind_run]
  by_cases hlrc : codeAt r.data r.bit &&& 0x1e = r.lrc
  · rw [if_neg (not_not.mpr hlrc)]
    exact congrFun (if_neg (not_not.mpr hlrc)) _
  · rw [if_pos hlrc]
    exact congrFun (if_pos hlrc) _

theorem checkLrc_end {r : BcdReader} (h : r.bitLen < r.bit + 5) :
    checkLrc r = .error (.error .unexpectedEnd) := by
  rw [checkLrc, Reading.bind_run, read5_end h]
  rfl

end BcdReader

/-! ## The encoding -/

/-- A number of four bits as a symbol: its bits from the lowest on, and a bit that makes the number
of ones odd. -/
def symbolBits (n : Nat) : List Bool :=
  [n.testBit 0, n.testBit 1, n.testBit 2, n.testBit 3,
    !(n.testBit 0 ^^ n.testBit 1 ^^ n.testBit 2 ^^ n.testBit 3)]

/-- Some digits. -/
abbrev Digits (n : Nat) := { ds : List (Fin 10) // ds.length = n }

/-- The digit of a category. -/
def OrgCategory.digit : OrgCategory → Fin 10
  | .federal => 1
  | .state => 2
  | .commercial => 3
  | .foreign => 4

/-- The digit of an association. -/
def Association.digit : Association → Fin 10
  | .employee => 1
  | .civil => 2
  | .executive => 3
  | .uniformed => 4
  | .contractor => 5
  | .affiliate => 6
  | .beneficiary => 7

/-- The fields of a FASC-N, each as long as the standard has it. -/
structure FascnFields where
  agency : Digits 4
  system : Digits 4
  crednum : Digits 6
  cs : Digits 1
  ici : Digits 1
  pi : Digits 10
  oc : OrgCategory
  oi : Digits 4
  poa : Association
  deriving DecidableEq

def startNumber : Nat := 11
def separatorNumber : Nat := 13
def endNumber : Nat := 15

/-- Digits as symbol numbers. -/
def numbers (ds : List (Fin 10)) : List Nat := ds.map Fin.val

theorem numbers_append (ds ds' : List (Fin 10)) :
    numbers (ds ++ ds') = numbers ds ++ numbers ds' := List.map_append

/-- Bits in bytes of eight. -/
def packBits : Nat → List Bool → Bytes
  | 0, _ => []
  | n + 1, bits => codeOf (bits.take 8) 0 :: packBits n (bits.drop 8)

/-- The symbols in front of the check symbol. -/
def FascnFields.symbols (f : FascnFields) : List Nat :=
  [startNumber] ++ (numbers f.agency ++ [separatorNumber]) ++
    (numbers f.system ++ [separatorNumber]) ++ (numbers f.crednum ++ [separatorNumber]) ++
    (numbers f.cs ++ [separatorNumber]) ++ (numbers f.ici ++ [separatorNumber]) ++
    numbers f.pi ++ numbers [f.oc.digit] ++ numbers f.oi ++ (numbers [f.poa.digit] ++ [endNumber])

/-- The check symbol has the exclusive or of the others. -/
def checkNumber (symbols : List Nat) : Nat := symbols.foldl Nat.xor 0

/-- The bytes of the fields, the check symbol last. -/
def FascnFields.encode (f : FascnFields) : Bytes :=
  packBits 25 ((f.symbols ++ [checkNumber f.symbols]).flatMap symbolBits)

/-- A digit as a character. -/
def digitChar (d : Fin 10) : Char := Char.ofNat (48 + d)

/-- The FASC-N of the fields. -/
def FascnFields.fascn (f : FascnFields) : Fascn where
  agency := f.agency.1.map digitChar
  system := f.system.1.map digitChar
  crednum := f.crednum.1.map digitChar
  cs := f.cs.1.map digitChar
  ici := f.ici.1.map digitChar
  pi := f.pi.1.map digitChar
  oc := f.oc
  oi := f.oi.1.map digitChar
  poa := f.poa

/-! ## Packing -/

theorem testBit_codeOf {bits : List Bool} (hbits : bits.length = 8) {p : Nat} (hp : p < 8) :
    (codeOf bits 0).toNat.testBit (7 - p) = bits[p]?.getD false := by
  have hall : ∀ b₀ b₁ b₂ b₃ b₄ b₅ b₆ b₇ : Bool, ∀ p : Fin 8,
      (codeOf [b₀, b₁, b₂, b₃, b₄, b₅, b₆, b₇] 0).toNat.testBit (7 - p) =
        [b₀, b₁, b₂, b₃, b₄, b₅, b₆, b₇][p.1]?.getD false := by
    decide +kernel
  match bits, hbits with
  | [b₀, b₁, b₂, b₃, b₄, b₅, b₆, b₇], _ => exact hall b₀ b₁ b₂ b₃ b₄ b₅ b₆ b₇ ⟨p, hp⟩

theorem length_packBits (n : Nat) (bits : List Bool) : (packBits n bits).length = n := by
  induction n generalizing bits with
  | zero => rfl
  | succ n ih => rw [packBits, List.length_cons, ih]

/-- The bits that were packed are the bits of the bytes. -/
theorem bitOf_packBits {n : Nat} {bits : List Bool} (hbits : bits.length = 8 * n) (p : Nat) :
    bitOf (packBits n bits) p = bits[p]?.getD false := by
  induction n generalizing bits p with
  | zero =>
    obtain rfl := List.length_eq_zero_iff.mp hbits
    rw [bitOf, packBits]
    simp
  | succ n ih =>
    have htake : (bits.take 8).length = 8 := by
      rw [List.length_take]
      omega
    have hdrop : (bits.drop 8).length = 8 * n := by
      rw [List.length_drop]
      omega
    rw [packBits]
    by_cases hp : p < 8
    · have h := testBit_codeOf htake hp
      rw [List.getElem?_take_of_lt hp] at h
      rw [bitOf, Nat.div_eq_of_lt hp, Nat.mod_eq_of_lt hp, List.getElem?_cons_zero,
        Option.getD_some, h]
    · obtain ⟨q, rfl⟩ : ∃ q, p = 8 + q := ⟨p - 8, by omega⟩
      have hdiv : (8 + q) / 8 = q / 8 + 1 := by omega
      have h := ih hdrop q
      rw [bitOf, List.getElem?_drop] at h
      rw [bitOf, hdiv, Nat.add_mod_left, List.getElem?_cons_succ, h]

/-- The bits from a place on are those that were packed there. -/
theorem bitsAt_packBits {n : Nat} {bits : List Bool} (hbits : bits.length = 8 * n) {p k : Nat}
    (h : p + k ≤ bits.length) : bitsAt (packBits n bits) p k = (bits.drop p).take k := by
  induction k generalizing p with
  | zero => rfl
  | succ k ih =>
    have hlt : p < bits.length := by omega
    rw [bitsAt, bitOf_packBits hbits, ih (by omega), List.drop_eq_getElem_cons hlt,
      List.take_succ_cons, List.getElem?_eq_getElem hlt, Option.getD_some]

/-! ## Decoding an encoding -/

/-- The five bits of a symbol number. -/
def numberCode (n : Nat) : UInt8 := codeOf (symbolBits n) 0

/-- What a reader stands in front of: symbols, one after the other. -/
def Spells (r : BcdReader) : List Nat → Prop
  | [] => True
  | n :: ns =>
    r.bit + 5 ≤ r.bitLen ∧ codeAt r.data r.bit = numberCode n ∧ Spells (r.step (numberCode n)) ns

/-- The reader behind symbols. -/
def BcdReader.past (r : BcdReader) (ns : List Nat) : BcdReader :=
  ns.foldl (fun r n => r.step (numberCode n)) r

theorem spells_append {r : BcdReader} {ns ms : List Nat} :
    Spells r (ns ++ ms) ↔ Spells r ns ∧ Spells (r.past ns) ms := by
  induction ns generalizing r with
  | nil => exact ⟨fun h => ⟨trivial, h⟩, And.right⟩
  | cons n ns ih =>
    rw [List.cons_append, Spells, Spells, ih, and_assoc, and_assoc]
    rfl

theorem past_append (r : BcdReader) (ns ms : List Nat) : r.past (ns ++ ms) = (r.past ns).past ms :=
  List.foldl_append

theorem bit_past (r : BcdReader) (ns : List Nat) : (r.past ns).bit = r.bit + 5 * ns.length := by
  induction ns generalizing r with
  | nil => rfl
  | cons n ns ih =>
    rw [List.length_cons, Nat.mul_succ, Nat.add_comm _ 5, ← Nat.add_assoc]
    exact ih (r.step (numberCode n))

/-- There are at least as many bits as symbols. -/
theorem spells_length {r : BcdReader} {ns : List Nat} (h : Spells r ns) :
    ns.length ≤ r.data.length * 8 := by
  have hbits : r.bit + 5 * ns.length ≤ max r.bit r.bitLen := by
    induction ns generalizing r with
    | nil => exact Nat.le_max_left _ _
    | cons n ns ih =>
      obtain ⟨hroom, -, hrest⟩ := h
      have h := ih hrest
      have hlen : (r.step (numberCode n)).bitLen = r.bitLen := rfl
      have hbit : (r.step (numberCode n)).bit = r.bit + 5 := rfl
      rw [hlen, hbit] at h
      rw [List.length_cons]
      omega
  have hlen := r.bitLen_le
  omega

theorem decodeSymbol_digit (d : Fin 10) :
    decodeSymbol (numberCode d) = .ok (.digit (digitChar d)) := by
  revert d
  decide +kernel

/-- The symbol a reader stands in front of is read. -/
theorem readSymbol_of_spells {r : BcdReader} {n : Nat} {ns : List Nat} (h : Spells r (n :: ns))
    {s : BcdSymbol} (hs : decodeSymbol (numberCode n) = .ok s) :
    readSymbol r = .ok (s, r.past [n]) := by
  obtain ⟨hroom, hcode, -⟩ := h
  rw [readSymbol_eq hroom, hcode, hs]
  rfl

/-- Digits below the limit are collected. -/
theorem readFieldLoop_digits {limit : Nat} {ds : List (Fin 10)} {r : BcdReader} {s : List Char}
    (turns : Nat) (h : Spells r (numbers ds)) (hlimit : s.length + ds.length < limit) :
    readFieldLoop limit (ds.length + turns) s r =
      readFieldLoop limit turns (s ++ ds.map digitChar) (r.past (numbers ds)) := by
  induction ds generalizing r s with
  | nil => rw [List.length_nil, Nat.zero_add, List.map_nil, List.append_nil]; rfl
  | cons d ds ih =>
    have hread := readSymbol_of_spells h (decodeSymbol_digit d)
    have hfew : ¬ (limit ≠ 0 ∧ limit ≤ (s ++ [digitChar d]).length) := by
      rw [List.length_append, List.length_singleton]
      rw [List.length_cons] at hlimit
      omega
    have hrest := ih (r := r.past [↑d]) h.2.2 (s := s ++ [digitChar d]) (by
      rw [List.length_append, List.length_singleton]
      rw [List.length_cons] at hlimit
      omega)
    rw [List.append_assoc] at hrest
    rw [List.length_cons, Nat.add_right_comm, readFieldLoop, Reading.bind_run, hread, ok_bind]
    dsimp only
    rw [if_neg hfew, hrest]
    rfl

/-- A field ends at a separator. -/
theorem readField_separated (limit : Nat) {ds : List (Fin 10)} {n : Nat} {r : BcdReader}
    (h : Spells r (numbers ds ++ [n])) (hlimit : ds.length < limit) {s : BcdSymbol}
    (hn : decodeSymbol (numberCode n) = .ok s) (hs : s = .fieldSeparator ∨ s = .endSentinel) :
    readField limit r = .ok ((ds.map digitChar, some s), r.past (numbers ds ++ [n])) := by
  have hlen := spells_length h
  rw [List.length_append, List.length_singleton, numbers, List.length_map] at hlen
  obtain ⟨k, hk⟩ : ∃ k, r.data.length * 8 + 1 = ds.length + (k + 1) :=
    ⟨r.data.length * 8 - ds.length, by omega⟩
  obtain ⟨hdigits, hend⟩ := spells_append.mp h
  rw [readField, hk, readFieldLoop_digits _ hdigits (by rw [List.length_nil]; omega), readFieldLoop,
    Reading.bind_run, readSymbol_of_spells hend hn, ok_bind, past_append]
  rcases hs with rfl | rfl <;> rfl

/-- A field ends at its limit. -/
theorem readField_full (limit : Nat) {ds : List (Fin 10)} {r : BcdReader}
    (h : Spells r (numbers ds)) (hlimit : ds.length = limit) (hpos : 0 < limit) :
    readField limit r = .ok ((ds.map digitChar, none), r.past (numbers ds)) := by
  have hlen := spells_length h
  rw [numbers, List.length_map] at hlen
  rcases List.eq_nil_or_concat' ds with rfl | ⟨front, d, rfl⟩
  · rw [List.length_nil] at hlimit
    omega
  · rw [List.length_append, List.length_singleton] at hlimit hlen
    obtain ⟨k, hk⟩ : ∃ k, r.data.length * 8 + 1 = front.length + (k + 1) :=
      ⟨r.data.length * 8 - front.length, by omega⟩
    rw [numbers_append] at h
    obtain ⟨hdigits, hend⟩ := spells_append.mp h
    have hfull : limit ≠ 0 ∧ limit ≤ (front.map digitChar ++ [digitChar d]).length := by
      rw [List.length_append, List.length_map, List.length_singleton]
      omega
    rw [readField, hk, readFieldLoop_digits _ hdigits (by rw [List.length_nil]; omega),
      readFieldLoop, Reading.bind_run, readSymbol_of_spells hend (decodeSymbol_digit d), ok_bind]
    dsimp only
    rw [List.nil_append, if_pos hfull, numbers_append, List.map_append, past_append]
    rfl

theorem fromDigit_oc (oc : OrgCategory) :
    OrgCategory.fromDigit ([oc.digit].map digitChar) = .ok oc := by
  cases oc <;> decide

theorem fromDigit_poa (poa : Association) :
    Association.fromDigit ([poa.digit].map digitChar) = .ok poa := by
  cases poa <;> decide

/-- A reader in front of the symbols of fields reads the fields. -/
theorem decodeFields_of_spells {f : FascnFields} {r : BcdReader} (h : Spells r f.symbols) :
    decodeFields r = .ok (f.fascn, r.past f.symbols) := by
  have hsep : decodeSymbol (numberCode separatorNumber) = .ok .fieldSeparator := by decide
  have hend : decodeSymbol (numberCode endNumber) = .ok .endSentinel := by decide
  obtain ⟨h, hpoa⟩ := spells_append.mp h
  obtain ⟨h, hoi⟩ := spells_append.mp h
  obtain ⟨h, hoc⟩ := spells_append.mp h
  obtain ⟨h, hpi⟩ := spells_append.mp h
  obtain ⟨h, hici⟩ := spells_append.mp h
  obtain ⟨h, hcs⟩ := spells_append.mp h
  obtain ⟨h, hcrednum⟩ := spells_append.mp h
  obtain ⟨h, hsystem⟩ := spells_append.mp h
  obtain ⟨hstart, hagency⟩ := spells_append.mp h
  have hsentinel : readStart r = .ok ((), r.past [startNumber]) := by
    rw [readStart, Reading.bind_run, readSymbol_of_spells hstart
      (by decide : decodeSymbol (numberCode startNumber) = .ok .startSentinel)]
    rfl
  have hagency := readField_separated 5 hagency (by rw [f.agency.2]; decide) hsep (.inl rfl)
  have hsystem := readField_separated 5 hsystem (by rw [f.system.2]; decide) hsep (.inl rfl)
  have hcrednum :=
    readField_separated 7 hcrednum (by rw [f.crednum.2]; decide) hsep (.inl rfl)
  have hcs := readField_separated 2 hcs (by rw [f.cs.2]; decide) hsep (.inl rfl)
  have hici := readField_separated 2 hici (by rw [f.ici.2]; decide) hsep (.inl rfl)
  have hpi := readField_full 10 hpi f.pi.2 (by decide)
  have hoc := readField_full 1 hoc rfl (by decide)
  have hoi := readField_full 4 hoi f.oi.2 (by decide)
  have hpoa := readField_separated 2 hpoa (by decide : 1 < 2) hend (.inr rfl)
  simp only [past_append] at hagency hsystem hcrednum hcs hici hpi hoc hoi hpoa
  rw [decodeFields, Reading.bind_run, hsentinel, ok_bind]
  dsimp only
  rw [Reading.bind_run, hagency, ok_bind]
  dsimp only
  rw [Reading.bind_run, hsystem, ok_bind]
  dsimp only
  rw [Reading.bind_run, hcrednum, ok_bind]
  dsimp only
  rw [Reading.bind_run, hcs, ok_bind]
  dsimp only
  rw [Reading.bind_run, hici, ok_bind]
  dsimp only
  rw [Reading.bind_run, hpi, ok_bind]
  dsimp only
  rw [Reading.bind_run, hoc, ok_bind]
  dsimp only
  rw [Reading.bind_run, hoi, ok_bind]
  dsimp only
  rw [Reading.bind_run, hpoa, ok_bind]
  dsimp only
  rw [fromDigit_oc, fromDigit_poa, Reading.bind_run, Reading.ofExcept, ok_bind, Reading.bind_run,
    Reading.ofExcept, ok_bind, checkEnd, if_pos rfl, FascnFields.symbols]
  simp only [past_append]
  rfl

/-- A reader of packed symbols stands in front of them. -/
theorem spells_packBits {n : Nat} {bits : List Bool} (hbits : bits.length = 8 * n)
    (hn : n * 8 < 2 ^ 64) {r : BcdReader} (hdata : r.data = packBits n bits) {ns : List Nat}
    {rest : List Bool} (h : bits.drop r.bit = ns.flatMap symbolBits ++ rest)
    (hr : r.bit ≤ bits.length) : Spells r ns := by
  induction ns generalizing r with
  | nil => trivial
  | cons m ns ih =>
    have hlen : r.bitLen = bits.length := by
      rw [BcdReader.bitLen, hdata, length_packBits, Nat.mod_eq_of_lt hn, hbits, Nat.mul_comm]
    have hroom : 5 ≤ (bits.drop r.bit).length := by
      rw [h, List.flatMap_cons, List.append_assoc, List.length_append]
      exact Nat.le_add_right 5 _
    rw [List.length_drop] at hroom
    have htake : (bits.drop r.bit).take 5 = symbolBits m := by
      rw [h, List.flatMap_cons, List.append_assoc]
      exact List.take_left' rfl
    have hdrop : bits.drop (r.bit + 5) = ns.flatMap symbolBits ++ rest := by
      rw [← List.drop_drop, h, List.flatMap_cons, List.append_assoc]
      exact List.drop_left' rfl
    refine ⟨by rw [hlen]; omega, ?_, ih hdata hdrop ?_⟩
    · rw [codeAt, hdata, bitsAt_packBits hbits (by omega), htake]
      rfl
    · rw [BcdReader.step]
      dsimp only
      omega

theorem lrc_past {r : BcdReader} {a : Nat} {ns : List Nat} (ha : a < 16)
    (hlrc : r.lrc = numberCode a &&& 0x1e) (h : ∀ n ∈ ns, n < 16) :
    (r.past ns).lrc = numberCode (ns.foldl Nat.xor a) &&& 0x1e := by
  have hxor : ∀ a b : Fin 16, (numberCode a &&& 0x1e) ^^^ (numberCode b &&& 0x1e) =
      numberCode (a.1 ^^^ b.1) &&& 0x1e := by
    decide +kernel
  induction ns generalizing r a with
  | nil => exact hlrc
  | cons n ns ih =>
    have hn := h n List.mem_cons_self
    refine ih (r := r.past [n]) (a := a ^^^ n) (Nat.xor_lt_two_pow (n := 4) ha hn) ?_ ?_
    · rw [← hxor ⟨a, ha⟩ ⟨n, hn⟩, ← hlrc]
      rfl
    · intro m hm
      exact h m (List.mem_cons_of_mem n hm)

theorem numbers_lt {ds : List (Fin 10)} {n : Nat} (h : n ∈ numbers ds) : n < 16 := by
  obtain ⟨d, -, rfl⟩ := List.mem_map.mp h
  exact Nat.lt_trans d.2 (by decide)

theorem symbols_lt (f : FascnFields) : ∀ n ∈ f.symbols, n < 16 := by
  intro n hn
  simp only [FascnFields.symbols, List.mem_append, List.mem_singleton, startNumber,
    separatorNumber, endNumber] at hn
  grind [→ numbers_lt]

theorem length_symbols (f : FascnFields) : f.symbols.length = 39 := by
  simp only [FascnFields.symbols, numbers, List.length_append, List.length_map, List.length_cons,
    List.length_nil, f.agency.2, f.system.2, f.crednum.2, f.cs.2, f.ici.2, f.pi.2, f.oi.2]

theorem bits_of_isZeroFascn {data : Bytes} (h : isZeroFascn data = true) (p : Nat) :
    bitOf data p = false := by
  simp only [isZeroFascn, Bool.and_eq_true, List.all_eq_true, beq_iff_eq] at h
  rw [bitOf]
  rcases hget : data[p / 8]? with _ | byte
  · simp
  · rw [Option.getD_some, h.2 byte (List.mem_of_getElem? hget)]
    simp

/-- Zero bytes start with the symbol zero. -/
theorem codeAt_of_isZeroFascn {data : Bytes} (h : isZeroFascn data = true) : codeAt data 0 = 0 := by
  rw [codeAt]
  simp only [bitsAt, bits_of_isZeroFascn h]
  rfl

theorem length_flatMap_symbolBits (ns : List Nat) :
    (ns.flatMap symbolBits).length = 5 * ns.length := by
  induction ns with
  | nil => rfl
  | cons n ns ih =>
    rw [List.flatMap_cons, List.length_append, ih, List.length_cons]
    exact Nat.add_comm _ _

/-- A reader of an encoding stands in front of its symbols. -/
theorem spells_encode (f : FascnFields) :
    Spells (BcdReader.new f.encode) (f.symbols ++ [checkNumber f.symbols]) := by
  have hbits : ((f.symbols ++ [checkNumber f.symbols]).flatMap symbolBits).length = 8 * 25 := by
    rw [length_flatMap_symbolBits, List.length_append, length_symbols]
    rfl
  exact spells_packBits hbits (by decide) rfl (List.append_nil _).symm (Nat.zero_le _)

/-- The fields that were encoded are decoded. -/
theorem decodeFascn_encode (f : FascnFields) : decodeFascn f.encode = .ok f.fascn := by
  obtain ⟨hfields, hroom, hcode, -⟩ := spells_append.mp (spells_encode f)
  have hzero : ¬ isZeroFascn f.encode = true := by
    intro h
    have hstart : codeAt f.encode 0 = numberCode startNumber := hfields.2.1
    rw [codeAt_of_isZeroFascn h] at hstart
    exact absurd hstart (by decide)
  have hlrc := lrc_past (r := BcdReader.new f.encode) (a := 0) (by decide) (by rfl) (symbols_lt f)
  have hcheck := checkLrc_eq hroom
  rw [hcode, hlrc] at hcheck
  rw [if_neg (not_not.mpr (by rfl))] at hcheck
  rw [decodeFascn, if_neg hzero, StateT.run', Reading.bind_run, decodeFields_of_spells hfields,
    ok_bind, Reading.bind_run, hcheck]
  rfl

example : decodeFascn [0xD0, 0x42, 0x10, 0xD8, 0x21, 0x08, 0x6C, 0x10, 0x84, 0x21, 0x0D, 0x83, 0x68,
    0x58, 0x21, 0x08, 0x42, 0x10, 0x84, 0x21, 0xC8, 0x42, 0x10, 0xC3, 0xEB] = .ok Fascn.zero := by
  decide +kernel

end Piggy.Piv
