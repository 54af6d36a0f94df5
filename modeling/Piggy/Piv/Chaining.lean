import Piggy.Piv.Apdu

/-!
# Responses in pieces

A card that has more to say than fits into one response ends it with `61xx`, where `xx` says how
much more there is, and the host asks for the next piece. However a card cuts a response up, the
host has it whole in the end; and a card that does not answer for ever does not keep it for ever.
-/

namespace Piggy.Piv

open Piggy.Core Piggy.Box Piggy.Card

variable {σ : Type} {link : Link σ}

/-! ## A card that cuts a response up -/

/-- The byte that stands for a number of bytes; 256 and more are zero. -/
def countByte (n : Nat) : UInt8 := UInt8.ofNat (min n 256)

/-- GET RESPONSE for so many bytes. -/
def getResponseCommand (n : Nat) : Bytes := [0x00, 0xC0, 0x00, 0x00, countByte n]

/-- A card delivers a response in pieces. All but the last announce what is still to come, and
the last has the final status word. The next piece comes for the right GET RESPONSE. -/
inductive Delivers (link : Link σ) (final : StatusWord) : σ → Bytes → List Bytes → σ → Prop where
  | last {s s' : σ} {command chunk : Bytes}
      (h : link s command = (.ok (chunk ++ [final.sw1, final.sw2]), s')) :
      Delivers link final s command [chunk] s'
  | more {s s' s'' : σ} {command chunk next : Bytes} {rest : List Bytes}
      (h : link s command =
        (.ok (chunk ++ [0x61, countByte (next :: rest).flatten.length]), s'))
      (hrest : Delivers link final s' (getResponseCommand (next :: rest).flatten.length)
        (next :: rest) s'') :
      Delivers link final s command (chunk :: next :: rest) s''

/-- How much is still to come behind each piece but the last. -/
def remainders : List Bytes → List Nat
  | _ :: next :: rest => (next :: rest).flatten.length :: remainders (next :: rest)
  | _ => []

/-- A link that keeps the commands that go over it. -/
def recorded (link : Link σ) : Link (σ × List Bytes) := fun s command =>
  ((link s.1 command).1, ((link s.1 command).2, s.2 ++ [command]))

/-- A link on which no exchange goes on for ever: in the end it gives no response. -/
inductive Ends (link : Link σ) : σ → Prop where
  | intro {s : σ} (h : ∀ command response s', link s command = (.ok response, s') → Ends link s') :
      Ends link s

/-! ## What the host sends -/

/-- GET RESPONSE asks for what the status word announces. -/
theorem toBytes_getResponse (sw : StatusWord) :
    (getResponse sw).toBytes = [0x00, 0xC0, 0x00, 0x00, sw.sw2] := by
  obtain ⟨sw1, sw2⟩ := sw
  by_cases hzero : sw2 = 0
  · subst hzero
    rfl
  · have hsmall : ¬ (256 : UInt16) < sw2.toUInt16 := by
      rw [UInt16.lt_iff_toNat_lt, UInt8.toNat_toUInt16]
      have hlt := sw2.toNat_lt
      have h256 : (256 : UInt16).toNat = 256 := rfl
      omega
    have hbelow : ¬ (256 : UInt16) ≤ sw2.toUInt16 := by
      rw [UInt16.le_iff_toNat_le, UInt8.toNat_toUInt16]
      have hlt := sw2.toNat_lt
      have h256 : (256 : UInt16).toNat = 256 := rfl
      omega
    simp [getResponse, remainingBytes, hzero, Apdu.toBytes, Apdu.new, hsmall, hbelow]

theorem toBytes_getResponse_count (n : Nat) :
    (getResponse ⟨0x61, countByte n⟩).toBytes = getResponseCommand n :=
  toBytes_getResponse ⟨0x61, countByte n⟩

/-! ## The loop -/

theorem chainResponses_final {fuel : Nat} {full : Bytes} {sw : StatusWord} {s : σ}
    (h : hasMoreData sw = false) : chainResponses link fuel full sw s = some (.ok (full, sw), s) := by
  rw [chainResponses.eq_def]
  exact if_pos (by rw [h]; rfl)

theorem chainResponses_more (fuel : Nat) {full : Bytes} {sw : StatusWord} {s : σ}
    (h : hasMoreData sw = true) :
    chainResponses link (fuel + 1) full sw s =
      match link s (getResponse sw).toBytes with
      | (.error e, s) => some (.error e, s)
      | (.ok resp, s) =>
        match splitResponse resp with
        | none => some (.error (.other "chained response too short"), s)
        | some (more, sw) => chainResponses link fuel (full ++ more) sw s := by
  rw [chainResponses]
  exact if_neg (by rw [h]; decide)

/-- The rest of a response, from the first piece that is asked for. -/
theorem chainResponses_delivers {final : StatusWord} (hfinal : hasMoreData final = false)
    {s s' : σ} {chunks : List Bytes} {command : Bytes}
    (h : Delivers link final s command chunks s') {n fuel : Nat} (hfuel : chunks.length ≤ fuel)
    (hcommand : command = getResponseCommand n) (full : Bytes) (sent : List Bytes) :
    chainResponses (recorded link) fuel full ⟨0x61, countByte n⟩ (s, sent) =
      some (.ok (full ++ chunks.flatten, final), s',
        sent ++ command :: (remainders chunks).map getResponseCommand) := by
  induction h generalizing n fuel full sent with
  | @last s s' command chunk h =>
    subst hcommand
    obtain ⟨fuel, rfl⟩ : ∃ k, fuel = k + 1 := Nat.exists_eq_add_of_le' hfuel
    have hlink : recorded link (s, sent) (getResponseCommand n) =
        (.ok (chunk ++ [final.sw1, final.sw2]), (s', sent ++ [getResponseCommand n])) := by
      rw [recorded, h]
    rw [chainResponses_more fuel rfl, toBytes_getResponse_count, hlink]
    dsimp only
    rw [splitResponse_append]
    dsimp only
    rw [chainResponses_final hfinal]
    simp [remainders]
  | @more s s' s'' command chunk next rest h hrest ih =>
    subst hcommand
    obtain ⟨fuel, rfl⟩ : ∃ k, fuel = k + 1 := Nat.exists_eq_add_of_le' (Nat.le_trans (by simp) hfuel)
    have hlink : recorded link (s, sent) (getResponseCommand n) =
        (.ok (chunk ++ [0x61, countByte (next :: rest).flatten.length]),
          (s', sent ++ [getResponseCommand n])) := by
      rw [recorded, h]
    rw [chainResponses_more fuel rfl, toBytes_getResponse_count, hlink]
    dsimp only
    rw [splitResponse_append]
    dsimp only
    rw [ih (Nat.le_of_succ_le_succ hfuel) rfl]
    simp [remainders]

/-- A command whose response is delivered in pieces. -/
theorem transmitOn_delivers {final : StatusWord} (hfinal : hasMoreData final = false) {s s' : σ}
    {chunks : List Bytes} {apdu : Apdu} (h : Delivers link final s apdu.toBytes chunks s')
    {fuel : Nat} (hfuel : chunks.length ≤ fuel + 1) :
    transmitOn (recorded link) fuel apdu (s, []) =
      some (.ok (chunks.flatten, final), s',
        apdu.toBytes :: (remainders chunks).map getResponseCommand) := by
  rw [transmitOn, recorded]
  dsimp only
  generalize apdu.toBytes = command at h
  cases h with
  | last h =>
    rw [h]
    dsimp only
    rw [splitResponse_append]
    dsimp only
    rw [chainResponses_final hfinal]
    simp [remainders]
  | more h hrest =>
    rw [h]
    dsimp only
    rw [splitResponse_append]
    dsimp only
    rw [chainResponses_delivers hfinal hrest (Nat.le_of_succ_le_succ hfuel) rfl]
    simp [remainders]

/-! ## Responses that end -/

theorem chainResponses_ends {s : σ} (h : Ends link s) (full : Bytes) (sw : StatusWord) :
    ∃ fuel r, ∀ more, fuel ≤ more → chainResponses link more full sw s = some r := by
  induction h generalizing full sw with
  | @intro s _ ih =>
    cases hmore : hasMoreData sw with
    | false => exact ⟨0, _, fun more _ => chainResponses_final hmore⟩
    | true =>
      cases hlink : link s (getResponse sw).toBytes with
      | mk answer s' =>
        cases answer with
        | error e =>
          refine ⟨1, (.error e, s'), fun more hle => ?_⟩
          obtain ⟨more, rfl⟩ : ∃ k, more = k + 1 := Nat.exists_eq_add_of_le' hle
          rw [chainResponses_more more hmore, hlink]
        | ok response =>
          cases hsplit : splitResponse response with
          | none =>
            refine ⟨1, (.error (.other "chained response too short"), s'), fun more hle => ?_⟩
            obtain ⟨more, rfl⟩ : ∃ k, more = k + 1 := Nat.exists_eq_add_of_le' hle
            rw [chainResponses_more more hmore, hlink]
            simp only [hsplit]
          | some piece =>
            obtain ⟨fuel, r, hr⟩ := ih _ response s' hlink (full ++ piece.1) piece.2
            refine ⟨fuel + 1, r, fun more hle => ?_⟩
            obtain ⟨more, rfl⟩ : ∃ k, more = k + 1 :=
              Nat.exists_eq_add_of_le' (Nat.le_trans (Nat.le_add_left 1 fuel) hle)
            rw [chainResponses_more more hmore, hlink]
            simp only [hsplit]
            exact hr more (Nat.le_of_succ_le_succ hle)

theorem transmitOn_ends {s : σ} (h : Ends link s) (apdu : Apdu) :
    ∃ fuel r, ∀ more, fuel ≤ more → transmitOn link more apdu s = some r := by
  cases h with
  | intro h =>
    cases hlink : link s apdu.toBytes with
    | mk answer s' =>
      cases answer with
      | error e =>
        refine ⟨0, (.error e, s'), fun more _ => ?_⟩
        rw [transmitOn, hlink]
      | ok response =>
        cases hsplit : splitResponse response with
        | none =>
          refine ⟨0, (.error (.other "response too short for status word"), s'), fun more _ => ?_⟩
          rw [transmitOn, hlink]
          simp only [hsplit]
        | some piece =>
          obtain ⟨fuel, r, hr⟩ := chainResponses_ends (h _ response s' hlink) piece.1 piece.2
          refine ⟨fuel, r, fun more hle => ?_⟩
          rw [transmitOn, hlink]
          simp only [hsplit]
          exact hr more hle

/-- However a card cuts a response up, the host puts it together again, with one GET RESPONSE for
each piece that was announced; and where no exchange goes on for ever it comes to an end. -/
theorem transmitOn_reassembles (link : Link σ) (apdu : Apdu) (s : σ) :
    (∀ final chunks s', hasMoreData final = false →
      Delivers link final s apdu.toBytes chunks s' → ∀ fuel, chunks.length ≤ fuel + 1 →
        transmitOn (recorded link) fuel apdu (s, []) =
          some (.ok (chunks.flatten, final), s',
            apdu.toBytes :: (remainders chunks).map getResponseCommand)) ∧
      (Ends link s →
        ∃ fuel r, ∀ more, fuel ≤ more → transmitOn link more apdu s = some r) :=
  ⟨fun _ _ _ hfinal h _ hfuel => transmitOn_delivers hfinal h hfuel,
    fun h => transmitOn_ends h apdu⟩

/-! ## Scripts -/

/-- A card that has so many responses, and then none. -/
def scripted : Link (List Bytes)
  | [], _ => (.error (.other "the script is at its end"), [])
  | response :: script, _ => (.ok response, script)

theorem transmitOn_reassembles_scripted :
    transmitOn (recorded scripted) 1 (Apdu.ykAttest 0x9A)
        ([[0xAA, 0x61, 0x01], [0xBB, 0x90, 0x00]], []) =
      some (.ok ([0xAA, 0xBB], ⟨0x90, 0x00⟩), [],
        [[0x00, 0xF9, 0x9A, 0x00], [0x00, 0xC0, 0x00, 0x00, 0x01]]) :=
  (transmitOn_reassembles scripted (Apdu.ykAttest 0x9A) [[0xAA, 0x61, 0x01], [0xBB, 0x90, 0x00]]).1
    ⟨0x90, 0x00⟩ [[0xAA], [0xBB]] [] rfl (.more rfl (.last rfl)) 1 (by decide)

end Piggy.Piv
