import Piggy.Piv.Fascn

/-!
# Bit errors in a FASC-N

Every symbol the decoder knows has an odd number of ones, so one wrong bit makes it a symbol that
the decoder does not know. A wrong bit of the check symbol disagrees with the symbols before it.
-/

namespace Piggy.Piv

open Piggy.Core Piggy.Box BcdReader

/-! ## Programs that read symbols -/

/-- Programs that read a symbol at a time and look at nothing else. -/
inductive Symbolic : {α : Type} → Reading α → Prop where
  | pure {α : Type} (a : α) : Symbolic (Pure.pure a)
  | ofExcept {α : Type} (x : Except FascnError α) : Symbolic (Reading.ofExcept x)
  | symbol : Symbolic readSymbol
  | bind {α β : Type} {x : Reading α} {f : α → Reading β} (hx : Symbolic x)
      (hf : ∀ a, Symbolic (f a)) : Symbolic (x >>= f)
  | sized {α : Type} {x : Nat → Reading α} (hx : ∀ n, Symbolic (x n)) :
      Symbolic fun r => x r.data.length r

theorem symbolic_readFieldLoop (limit turns : Nat) (s : List Char) :
    Symbolic (readFieldLoop limit turns s) := by
  induction turns generalizing s with
  | zero => exact .ofExcept _
  | succ turns ih =>
    refine .bind .symbol ?_
    intro symbol
    cases symbol with
    | startSentinel => exact .ofExcept _
    | fieldSeparator => exact .pure _
    | endSentinel => exact .pure _
    | digit c =>
      dsimp only
      split
      · exact .pure _
      · exact ih _

theorem symbolic_readField (limit : Nat) : Symbolic (readField limit) :=
  .sized (x := fun n => readFieldLoop limit (n * 8 + 1) []) fun _ => symbolic_readFieldLoop _ _ _

theorem symbolic_readStart : Symbolic readStart := by
  refine .bind .symbol ?_
  intro symbol
  cases symbol with
  | startSentinel => exact .pure _
  | fieldSeparator => exact .ofExcept _
  | endSentinel => exact .ofExcept _
  | digit c => exact .ofExcept _

theorem symbolic_decodeFields : Symbolic decodeFields := by
  refine .bind symbolic_readStart fun _ => ?_
  refine .bind (symbolic_readField 5) fun _ => ?_
  refine .bind (symbolic_readField 5) fun _ => ?_
  refine .bind (symbolic_readField 7) fun _ => ?_
  refine .bind (symbolic_readField 2) fun _ => ?_
  refine .bind (symbolic_readField 2) fun _ => ?_
  refine .bind (symbolic_readField 10) fun _ => ?_
  refine .bind (symbolic_readField 1) fun _ => ?_
  refine .bind (symbolic_readField 4) fun _ => ?_
  refine .bind (symbolic_readField 2) fun _ => ?_
  refine .bind (.ofExcept _) fun _ => ?_
  refine .bind (.ofExcept _) fun _ => ?_
  exact .bind (.ofExcept _) fun _ => .pure _

/-! ## The decoder does not stop -/

/-- A program that reads symbols does not read out of bounds. -/
theorem Symbolic.runs {α : Type} {x : Reading α} (hx : Symbolic x) (r : BcdReader) :
    x r ≠ .error .panicked := by
  induction hx generalizing r with
  | pure a => exact fun h => nomatch h
  | ofExcept x =>
    intro h
    cases x <;> cases h
  | symbol =>
    intro h
    by_cases hroom : r.bit + 5 ≤ r.bitLen
    · rw [readSymbol_eq hroom] at h
      cases hsym : decodeSymbol (codeAt r.data r.bit) <;> rw [hsym] at h <;> cases h
    · rw [readSymbol_end (Nat.lt_of_not_le hroom)] at h
      cases h
  | @bind _ _ x f _ _ ihx ihf =>
    intro h
    rw [Reading.bind_run] at h
    rcases hr : x r with fault | ⟨a, r'⟩
    · rw [hr] at h
      cases h
      exact ihx r hr
    · rw [hr, ok_bind] at h
      exact ihf a r' h
  | sized _ ih => exact ih _ r

theorem checkLrc_runs (r : BcdReader) : checkLrc r ≠ .error .panicked := by
  intro h
  by_cases hroom : r.bit + 5 ≤ r.bitLen
  · rw [checkLrc_eq hroom] at h
    split at h <;> cases h
  · rw [checkLrc_end (Nat.lt_of_not_le hroom)] at h
    cases h

/-- What decoding comes to when the bytes are not the zero bytes. -/
theorem decodeFascn_eq {data : Bytes} (hzero : ¬ isZeroFascn data = true) :
    decodeFascn data =
      decodeFields (BcdReader.new data) >>= fun p => checkLrc p.2 >>= fun _ => pure p.1 := by
  rw [decodeFascn, if_neg hzero, StateT.run', Reading.bind_run]
  rcases decodeFields (BcdReader.new data) with fault | ⟨fascn, r⟩
  · rfl
  · rw [ok_bind, ok_bind, Reading.bind_run]
    dsimp only
    rcases checkLrc r with fault | ⟨u, r'⟩ <;> rfl

/-- No byte string makes the decoder read out of bounds. -/
theorem decodeFascn_runs (data : Bytes) : decodeFascn data ≠ .error .panicked := by
  by_cases hzero : isZeroFascn data = true
  · rw [decodeFascn, if_pos hzero]
    exact fun h => by cases h
  · rw [decodeFascn_eq hzero]
    intro h
    rcases hfields : decodeFields (BcdReader.new data) with fault | ⟨fascn, r⟩
    · rw [hfields] at h
      cases h
      exact symbolic_decodeFields.runs _ hfields
    · rw [hfields, ok_bind] at h
      dsimp only at h
      rcases hcheck : checkLrc r with fault | ⟨u, r'⟩
      · rw [hcheck] at h
        cases h
        exact checkLrc_runs r hcheck
      · rw [hcheck] at h
        cases h

/-! ## A wrong bit -/

/-- A byte string with one bit the other way. -/
def flipBit (data : Bytes) (p : Nat) : Bytes :=
  data.modify (p / 8) (· ^^^ (1 <<< UInt8.ofNat (7 - p % 8)))

theorem length_flipBit (data : Bytes) (p : Nat) : (flipBit data p).length = data.length :=
  List.length_modify _ _ _

theorem bitOf_flipBit {data : Bytes} {p : Nat} (hp : p < data.length * 8) (q : Nat) :
    bitOf (flipBit data p) q = if q = p then !bitOf data q else bitOf data q := by
  have hbit : ∀ i j : Fin 8, (1 <<< UInt8.ofNat (7 - i) : UInt8).toNat.testBit (7 - j) =
      decide (j = i) := by
    decide +kernel
  rw [bitOf, bitOf, flipBit, List.getElem?_modify]
  by_cases hbyte : p / 8 = q / 8
  · have hlt : q / 8 < data.length := by omega
    have h := hbit ⟨p % 8, Nat.mod_lt _ (by decide)⟩ ⟨q % 8, Nat.mod_lt _ (by decide)⟩
    simp only [if_pos hbyte, List.getElem?_eq_getElem hlt, Option.map_eq_map, Option.map_some,
      Option.getD_some]
    dsimp only at h
    rw [UInt8.toNat_xor, Nat.testBit_xor, h]
    by_cases hq : q = p
    · subst hq
      simp
    · have hne : ¬ q % 8 = p % 8 := by omega
      simp [hq, hne]
  · have hq : q ≠ p := by
      rintro rfl
      exact hbyte rfl
    simp only [if_neg hbyte, if_neg hq, Option.map_eq_map, Option.map_id_fun', id]

/-- Bits elsewhere stay. -/
theorem bitsAt_flipBit_off {data : Bytes} {p : Nat} (hp : p < data.length * 8) {q n : Nat}
    (h : p < q ∨ q + n ≤ p) : bitsAt (flipBit data p) q n = bitsAt data q n := by
  induction n generalizing q with
  | zero => rfl
  | succ n ih =>
    rw [bitsAt, bitsAt, bitOf_flipBit hp, if_neg (by omega), ih (by omega)]

/-- Among the bits from a place on the one is the other way. -/
theorem bitsAt_flipBit_on {data : Bytes} {p : Nat} (hp : p < data.length * 8) {q n : Nat}
    (hq : q ≤ p) (hn : p < q + n) :
    bitsAt (flipBit data p) q n = (bitsAt data q n).modify (p - q) not := by
  induction n generalizing q with
  | zero => omega
  | succ n ih =>
    rw [bitsAt, bitsAt, bitOf_flipBit hp]
    by_cases heq : q = p
    · subst heq
      rw [if_pos rfl, bitsAt_flipBit_off hp (.inl (Nat.lt_succ_self _)), Nat.sub_self]
      rfl
    · obtain ⟨k, hk⟩ : ∃ k, p - q = k + 1 := ⟨p - q - 1, by omega⟩
      have hk' : p - (q + 1) = k := by omega
      rw [if_neg heq, ih (by omega) (by omega), hk, hk']
      rfl

theorem length_bitsAt (data : Bytes) (q n : Nat) : (bitsAt data q n).length = n := by
  induction n generalizing q with
  | zero => rfl
  | succ n ih => rw [bitsAt, List.length_cons, ih]

/-- A symbol with a wrong bit is no symbol. -/
theorem decodeSymbol_modify {bits : List Bool} (hbits : bits.length = 5) {i : Nat} (hi : i < 5)
    {s : BcdSymbol} (h : decodeSymbol (codeOf bits 0) = .ok s) (t : BcdSymbol) :
    decodeSymbol (codeOf (bits.modify i not) 0) ≠ .ok t := by
  have hall : ∀ b₀ b₁ b₂ b₃ b₄ : Bool, ∀ i : Fin 5,
      (decodeSymbol (codeOf [b₀, b₁, b₂, b₃, b₄] 0)).isOk = true →
        (decodeSymbol (codeOf ([b₀, b₁, b₂, b₃, b₄].modify i not) 0)).isOk = false := by
    decide +kernel
  match bits, hbits with
  | [b₀, b₁, b₂, b₃, b₄], _ =>
    intro ht
    have hno := hall b₀ b₁ b₂ b₃ b₄ ⟨i, hi⟩ (by rw [h]; rfl)
    rw [ht] at hno
    cases hno

/-- A check symbol with a wrong data bit is another one. -/
theorem masked_modify {bits : List Bool} (hbits : bits.length = 5) {i : Nat} (hi : i < 4) :
    codeOf (bits.modify i not) 0 &&& 0x1e ≠ codeOf bits 0 &&& 0x1e := by
  have hall : ∀ b₀ b₁ b₂ b₃ b₄ : Bool, ∀ i : Fin 4,
      codeOf ([b₀, b₁, b₂, b₃, b₄].modify i not) 0 &&& 0x1e ≠
        codeOf [b₀, b₁, b₂, b₃, b₄] 0 &&& 0x1e := by
    decide +kernel
  match bits, hbits with
  | [b₀, b₁, b₂, b₃, b₄], _ => exact hall b₀ b₁ b₂ b₃ b₄ ⟨i, hi⟩

/-! ## What the decoder makes of it -/

/-- The reader with a bit of its data flipped. -/
def BcdReader.flip (r : BcdReader) (p : Nat) : BcdReader := { r with data := flipBit r.data p }

theorem bitLen_flip (r : BcdReader) (p : Nat) : (r.flip p).bitLen = r.bitLen := by
  rw [BcdReader.bitLen, BcdReader.flip, length_flipBit]
  rfl

/-- What happens to a program that reads some bits when one bit is the other way: if it is not among
these the program does the same, otherwise it fails. -/
structure Detects {α : Type} (x : Reading α) (r : BcdReader) (a : α) (r' : BcdReader) : Prop where
  data : r'.data = r.data
  bit : r.bit ≤ r'.bit
  off : ∀ p < r.data.length * 8, p < r.bit ∨ r'.bit ≤ p → x (r.flip p) = .ok (a, r'.flip p)
  on : ∀ p < r.data.length * 8, r.bit ≤ p → p < r'.bit → ∀ b, x (r.flip p) ≠ .ok b

theorem detects_readSymbol {r r' : BcdReader} {s : BcdSymbol} (h : readSymbol r = .ok (s, r')) :
    Detects readSymbol r s r' := by
  obtain ⟨hroom, hsym, rfl⟩ := readSymbol_ok h
  refine ⟨rfl, Nat.le_add_right _ _, ?_, ?_⟩
  · intro p hp hoff
    have hcode : codeAt (r.flip p).data (r.flip p).bit = codeAt r.data r.bit :=
      congrArg (codeOf · 0) (bitsAt_flipBit_off hp hoff)
    rw [readSymbol_eq (by rw [bitLen_flip]; exact hroom), hcode, hsym]
    rfl
  · rintro p hp hle hlt ⟨t, r₂⟩ ht
    have hlt : p < r.bit + 5 := hlt
    have hcode : codeAt (r.flip p).data (r.flip p).bit =
        codeOf ((bitsAt r.data r.bit 5).modify (p - r.bit) not) 0 :=
      congrArg (codeOf · 0) (bitsAt_flipBit_on hp hle hlt)
    obtain ⟨-, hwrong, -⟩ := readSymbol_ok ht
    rw [hcode] at hwrong
    exact decodeSymbol_modify (length_bitsAt _ _ _) (by omega) hsym t hwrong

/-- A program that reads symbols does the same or fails. -/
theorem Symbolic.detects {α : Type} {x : Reading α} (hx : Symbolic x) {r r' : BcdReader} {a : α}
    (h : x r = .ok (a, r')) : Detects x r a r' := by
  induction hx generalizing r r' with
  | pure a =>
    cases h
    exact ⟨rfl, Nat.le_refl _, fun _ _ _ => rfl, fun p _ hle hlt => absurd hlt (by omega)⟩
  | ofExcept x =>
    cases x with
    | error e => cases h
    | ok a =>
      cases h
      exact ⟨rfl, Nat.le_refl _, fun _ _ _ => rfl, fun p _ hle hlt => absurd hlt (by omega)⟩
  | symbol => exact detects_readSymbol h
  | @bind _ _ x f _ _ ihx ihf =>
    rw [Reading.bind_run, bind_ok] at h
    obtain ⟨⟨c, r₁⟩, hx, hf⟩ := h
    have dx : Detects x r c r₁ := ihx hx
    have df : Detects (f c) r₁ a r' := ihf c hf
    have hlen : r₁.data.length = r.data.length := by rw [dx.data]
    refine ⟨df.data.trans dx.data, Nat.le_trans dx.bit df.bit, ?_, ?_⟩
    · intro p hp hoff
      have hbit := dx.bit
      have hbit' := df.bit
      rw [Reading.bind_run, dx.off p hp (by omega), ok_bind]
      exact df.off p (by omega) (by omega)
    · intro p hp hle hlt b hb
      rw [Reading.bind_run, bind_ok] at hb
      obtain ⟨⟨c', r₂⟩, hx', hf'⟩ := hb
      by_cases hfirst : p < r₁.bit
      · exact dx.on p hp hle hfirst _ hx'
      · rw [dx.off p hp (.inr (Nat.le_of_not_lt hfirst))] at hx'
        cases hx'
        exact df.on p (by omega) (Nat.le_of_not_lt hfirst) hlt b hf'
  | @sized _ x _ ih =>
    have d := ih _ h
    have hlen : ∀ p, (r.flip p).data.length = r.data.length := fun p => length_flipBit _ p
    refine ⟨d.data, d.bit, ?_, ?_⟩
    · intro p hp hoff
      rw [hlen]
      exact d.off p hp hoff
    · intro p hp hle hlt b
      rw [hlen]
      exact d.on p hp hle hlt b

/-- The bits whose errors are noticed: those of the symbols in front of the check symbol and its
four data bits, and every bit of the zero bytes. -/
def Guarded (data : Bytes) (p : Nat) : Prop :=
  p < data.length * 8 ∧
    (isZeroFascn data = true ∨
      ∃ fascn r, decodeFields (BcdReader.new data) = .ok (fascn, r) ∧ p < r.bit + 4)

/-- Fields are read behind a start sentinel only. -/
theorem start_of_decodeFields {data : Bytes} {p : Fascn × BcdReader}
    (h : decodeFields (BcdReader.new data) = .ok p) :
    decodeSymbol (codeAt data 0) = .ok .startSentinel := by
  rw [decodeFields, Reading.bind_run, bind_ok] at h
  obtain ⟨⟨u, r'⟩, hstart, -⟩ := h
  rw [readStart, Reading.bind_run, bind_ok] at hstart
  obtain ⟨⟨s, r''⟩, hsym, hs⟩ := hstart
  obtain ⟨-, hcode, -⟩ := readSymbol_ok hsym
  cases s with
  | startSentinel => exact hcode
  | fieldSeparator => cases hs
  | endSentinel => cases hs
  | digit c => cases hs

/-- A wrong bit among zero bytes is noticed: the first symbol has one bit at most, and a start
sentinel has three. -/
theorem zero_flipped {data : Bytes} (hzero : isZeroFascn data = true) {p : Nat}
    (hp : p < data.length * 8) (fascn : Fascn) : decodeFascn (flipBit data p) ≠ .ok fascn := by
  have hbits := bits_of_isZeroFascn hzero
  have hone : ¬ isZeroFascn (flipBit data p) = true := by
    intro h
    have hbit := bits_of_isZeroFascn h p
    rw [bitOf_flipBit hp, if_pos rfl, hbits] at hbit
    cases hbit
  have hnone : bitsAt data 0 5 = List.replicate 5 false := by
    simp only [bitsAt, hbits]
    rfl
  have hfirst : ∀ i : Fin 5, decodeSymbol (codeOf ((List.replicate 5 false).modify i not) 0) ≠
      .ok .startSentinel := by
    decide +kernel
  intro hok
  rw [decodeFascn_eq hone, bind_ok] at hok
  obtain ⟨b, hfields, -⟩ := hok
  have hsym := start_of_decodeFields hfields
  by_cases hlow : p < 5
  · rw [codeAt, bitsAt_flipBit_on hp (Nat.zero_le p) (by omega), hnone] at hsym
    exact hfirst ⟨p, hlow⟩ hsym
  · rw [codeAt, bitsAt_flipBit_off hp (.inr (by omega)), hnone] at hsym
    exact absurd hsym (by decide)

/-- One wrong bit does not make a start sentinel zero. -/
theorem not_zero_flipped {data : Bytes} {p : Nat} (hp : p < data.length * 8)
    (hstart : decodeSymbol (codeAt data 0) = .ok .startSentinel) :
    ¬ isZeroFascn (flipBit data p) = true := by
  have hall : ∀ b₀ b₁ b₂ b₃ b₄ : Bool, ∀ i : Fin 5,
      decodeSymbol (codeOf [b₀, b₁, b₂, b₃, b₄] 0) = .ok .startSentinel →
        codeOf ([b₀, b₁, b₂, b₃, b₄].modify i not) 0 ≠ 0 := by
    decide +kernel
  intro hzero
  have hcode := codeAt_of_isZeroFascn hzero
  by_cases hlow : p < 5
  · rw [codeAt, bitsAt_flipBit_on hp (Nat.zero_le p) (by omega)] at hcode
    exact hall _ _ _ _ _ ⟨p, hlow⟩ hstart hcode
  · rw [codeAt, bitsAt_flipBit_off hp (.inr (by omega))] at hcode
    rw [codeAt, hcode] at hstart
    exact absurd hstart (by decide)

/-- A wrong bit among the symbols or the data bits of the check symbol is noticed. -/
theorem symbols_flipped {data : Bytes} {fascn f : Fascn} {r : BcdReader}
    (hzero : ¬ isZeroFascn data = true) (hok : decodeFascn data = .ok fascn)
    (hfields : decodeFields (BcdReader.new data) = .ok (f, r)) {p : Nat}
    (hp : p < data.length * 8) (hlrc : p < r.bit + 4) (fascn' : Fascn) :
    decodeFascn (flipBit data p) ≠ .ok fascn' := by
  have d := symbolic_decodeFields.detects hfields
  rw [decodeFascn_eq hzero, hfields, ok_bind, bind_ok] at hok
  obtain ⟨⟨u, r'⟩, hcheck, -⟩ := hok
  have hroom : r.bit + 5 ≤ r.bitLen := by
    by_contra hend
    rw [checkLrc_end (Nat.lt_of_not_le hend)] at hcheck
    cases hcheck
  have hmask : codeAt r.data r.bit &&& 0x1e = r.lrc := by
    by_contra hne
    rw [checkLrc_eq hroom, if_pos hne] at hcheck
    cases hcheck
  intro hok'
  rw [decodeFascn_eq (not_zero_flipped hp (start_of_decodeFields hfields)), bind_ok] at hok'
  obtain ⟨b, hb, hcheck'⟩ := hok'
  by_cases hsymbols : p < r.bit
  · exact d.on p hp (Nat.zero_le p) hsymbols b hb
  · -- The symbols in front are as they were, and the check symbol is another one.
    have hdata : r.data = data := d.data
    rw [show BcdReader.new (flipBit data p) = (BcdReader.new data).flip p from rfl,
      d.off p hp (.inr (Nat.le_of_not_lt hsymbols))] at hb
    cases hb
    have hroom' : (r.flip p).bit + 5 ≤ (r.flip p).bitLen := by
      rw [bitLen_flip]
      exact hroom
    have hcode : codeAt (r.flip p).data (r.flip p).bit =
        codeOf ((bitsAt r.data r.bit 5).modify (p - r.bit) not) 0 :=
      congrArg (codeOf · 0)
        (bitsAt_flipBit_on (by rw [hdata]; exact hp) (Nat.le_of_not_lt hsymbols)
          (show p < r.bit + 5 by omega))
    have hne : codeAt (r.flip p).data (r.flip p).bit &&& 0x1e ≠ (r.flip p).lrc := by
      rw [hcode]
      intro h
      exact masked_modify (length_bitsAt r.data r.bit 5) (by omega) (h.trans hmask.symm)
    rw [checkLrc_eq hroom', if_pos hne] at hcheck'
    cases hcheck'

/-- Fields that are encoded are decoded; a wrong bit that is guarded is noticed, which in an
encoding is every bit but the last; and no byte string stops the decoder. -/
theorem decodeFascn_faithful :
    (∀ f : FascnFields, decodeFascn f.encode = .ok f.fascn ∧ f.encode.length * 8 = 200 ∧
      ∀ p < 199, Guarded f.encode p) ∧
    (∀ data fascn, decodeFascn data = .ok fascn → ∀ p, Guarded data p →
      ∃ e, decodeFascn (flipBit data p) = .error (.error e)) ∧
    ∀ data, decodeFascn data ≠ .error .panicked := by
  refine ⟨?_, ?_, decodeFascn_runs⟩
  · intro f
    have hlen : f.encode.length = 25 := length_packBits _ _
    refine ⟨decodeFascn_encode f, by rw [hlen], ?_⟩
    intro p hp
    have hfields := decodeFields_of_spells (spells_append.mp (spells_encode f)).1
    refine ⟨by rw [hlen]; omega, .inr ⟨_, _, hfields, ?_⟩⟩
    rw [bit_past, length_symbols]
    show p < 0 + 5 * 39 + 4
    omega
  · intro data fascn hok p hguarded
    have hno : ∀ fascn', decodeFascn (flipBit data p) ≠ .ok fascn' := by
      intro fascn'
      obtain ⟨hp, hzero | ⟨f, r, hfields, hlrc⟩⟩ := hguarded
      · exact zero_flipped hzero hp fascn'
      · by_cases hzero : isZeroFascn data = true
        · exact zero_flipped hzero hp fascn'
        · exact symbols_flipped hzero hok hfields hp hlrc fascn'
    rcases h : decodeFascn (flipBit data p) with (e | ⟨⟩) | fascn'
    · exact ⟨e, rfl⟩
    · exact absurd h (decodeFascn_runs _)
    · exact absurd h (hno fascn')

end Piggy.Piv
