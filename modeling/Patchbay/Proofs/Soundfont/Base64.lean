import Patchbay.Soundfont.Base64

namespace Patchbay.Base64

-- The symbol of six bits.
def sign (n : Nat) : Char := alphabet.getD n 'A'

def encode : List UInt8 → List Char
  | a :: b :: c :: rest =>
    sign (a.toNat / 4) :: sign (a.toNat % 4 * 16 + b.toNat / 16) ::
      sign (b.toNat % 16 * 4 + c.toNat / 64) :: sign (c.toNat % 64) :: encode rest
  | [a, b] =>
    [sign (a.toNat / 4), sign (a.toNat % 4 * 16 + b.toNat / 16), sign (b.toNat % 16 * 4), '=']
  | [a] => [sign (a.toNat / 4), sign (a.toNat % 4 * 16), '=', '=']
  | [] => []

-- The byte of a symbol.
def code (c : Char) : UInt8 := UInt8.ofNat c.toNat

theorem value?_sign : ∀ n < 64, value? (code (sign n)) = some n ∧ code (sign n) ≠ pad := by
  decide +kernel

theorem symbol_sign {n : Nat} (h : n < 64) (offset : Nat) : symbol (code (sign n)) offset = .ok n := by
  rw [symbol, (value?_sign n h).1]

theorem sign_mem (n : Nat) : sign n ∈ alphabet := by
  rw [sign, List.getD_eq_getElem?_getD]
  cases h : alphabet[n]? with
  | none => decide
  | some c => exact List.mem_of_getElem? h

theorem mem_encode (bytes : List UInt8) : ∀ c ∈ encode bytes, c ∈ '=' :: alphabet := by
  fun_induction encode with
  | case1 a b c rest ih =>
      simp only [List.forall_mem_cons]
      exact ⟨.tail _ (sign_mem _), .tail _ (sign_mem _), .tail _ (sign_mem _), .tail _ (sign_mem _), ih⟩
  | case2 | case3 | case4 => simp [sign_mem]

theorem length_encode (bytes : List UInt8) : 4 ∣ (encode bytes).length := by
  fun_induction encode with
  | case1 a b c rest ih =>
      obtain ⟨groups, hgroups⟩ := ih
      exact ⟨groups + 1, by simp [hgroups, Nat.mul_add]⟩
  | case2 | case3 | case4 => simp

theorem threeBytes_signs (a b c : UInt8) :
    threeBytes (a.toNat / 4) (a.toNat % 4 * 16 + b.toNat / 16) (b.toNat % 16 * 4 + c.toNat / 64)
      (c.toNat % 64) = [a, b, c] := by
  have ha := a.toNat_lt
  have hb := b.toNat_lt
  have hc := c.toNat_lt
  have hfirst : a.toNat / 4 * 4 + (a.toNat % 4 * 16 + b.toNat / 16) / 16 = a.toNat := by omega
  have hsecond : (a.toNat % 4 * 16 + b.toNat / 16) % 16 * 16 +
      (b.toNat % 16 * 4 + c.toNat / 64) / 4 = b.toNat := by omega
  have hthird : (b.toNat % 16 * 4 + c.toNat / 64) % 4 * 64 + c.toNat % 64 = c.toNat := by omega
  rw [threeBytes, hfirst, hsecond, hthird, UInt8.ofNat_toNat, UInt8.ofNat_toNat, UInt8.ofNat_toNat]

section Ending

variable {p q r o : Nat} (hp : p < 64) (hq : q < 64) (hr : r < 64) (start : Nat)

-- A symbol is no padding, and is kept with its code.
include hp in
theorem readEnding_sign (i : Nat) (symbols : List (Nat × Nat)) (rest : List UInt8) :
    readEnding start i ⟨symbols, 0, 0⟩ (code (sign p) :: rest) =
      readEnding start (i + 1) ⟨symbols ++ [(p, (code (sign p)).toNat)], 0, 0⟩ rest := by
  have hpad : ¬(code (sign p) == pad) = true := by simpa using (value?_sign p hp).2
  rw [readEnding, if_neg hpad, if_neg (fun h => h rfl), symbol_sign hp]

include hp hq in
theorem readEnding_two (rest : List UInt8) :
    readEnding start 0 ⟨[], 0, 0⟩ (code (sign p) :: code (sign q) :: rest) = readEnding start 2
      ⟨[(p, (code (sign p)).toNat), (q, (code (sign q)).toNat)], 0, 0⟩ rest := by
  rw [readEnding_sign hp, readEnding_sign hq]
  rfl

include hp hq in
theorem decodeEnding_one (h : q % 16 = 0) :
    decodeEnding start [code (sign p), code (sign q), pad, pad] =
      .ok ((threeBytes p q 0 0).take 1) := by
  have hread : readEnding start 0 ⟨[], 0, 0⟩ [code (sign p), code (sign q), pad, pad] =
      .ok ⟨[(p, (code (sign p)).toNat), (q, (code (sign q)).toNat)], 2, 2⟩ := by
    rw [readEnding_two hp hq]
    rfl
  simp [decodeEnding, hread, h, bind, pure, Except.bind, Except.pure]

include hp hq hr

theorem decodeEnding_two (h : r % 4 = 0) :
    decodeEnding start [code (sign p), code (sign q), code (sign r), pad] =
      .ok ((threeBytes p q r 0).take 2) := by
  have hread : readEnding start 0 ⟨[], 0, 0⟩ [code (sign p), code (sign q), code (sign r), pad] =
      .ok ⟨[(p, (code (sign p)).toNat), (q, (code (sign q)).toNat), (r, (code (sign r)).toNat)],
        1, 3⟩ := by
    rw [readEnding_two hp hq, readEnding_sign hr]
    rfl
  simp [decodeEnding, hread, h, bind, pure, Except.bind, Except.pure]

theorem decodeEnding_three (ho : o < 64) :
    decodeEnding start [code (sign p), code (sign q), code (sign r), code (sign o)] =
      .ok (threeBytes p q r o) := by
  have hread : readEnding start 0 ⟨[], 0, 0⟩
      [code (sign p), code (sign q), code (sign r), code (sign o)] =
      .ok ⟨[(p, (code (sign p)).toNat), (q, (code (sign q)).toNat), (r, (code (sign r)).toNat),
        (o, (code (sign o)).toNat)], 0, 0⟩ := by
    rw [readEnding_two hp hq, readEnding_sign hr, readEnding_sign ho]
    rfl
  simp [decodeEnding, hread, bind, pure, Except.bind, Except.pure]

-- The same where more follows.
theorem decodeFrom_three (ho : o < 64) (next : UInt8) (rest : List UInt8) :
    decodeFrom start
        (code (sign p) :: code (sign q) :: code (sign r) :: code (sign o) :: next :: rest) =
      (decodeFrom (start + 4) (next :: rest)).map (threeBytes p q r o ++ ·) := by
  rw [decodeFrom, symbol_sign hp, symbol_sign hq, symbol_sign hr, symbol_sign ho]
  cases decodeFrom (start + 4) (next :: rest) <;> rfl

end Ending

theorem decodeFrom_encode (bytes : List UInt8) (start : Nat) :
    decodeFrom start ((encode bytes).map code) = .ok bytes := by
  induction bytes using encode.induct generalizing start with
  | case1 a b c rest ih =>
      have ha := a.toNat_lt
      have hb := b.toNat_lt
      have hc := c.toNat_lt
      rw [encode]
      have hgroup := threeBytes_signs a b c
      simp only [List.map_cons]
      -- A whole group is read as an ending where nothing follows it.
      cases hrest : (encode rest).map code with
      | nil =>
          rw [hrest] at ih
          obtain rfl := Except.ok.inj (ih start)
          rw [decodeFrom, decodeEnding_three (by omega) (by omega) (by omega) _ (by omega), hgroup]
          simp
      | cons next more =>
          rw [decodeFrom_three (by omega) (by omega) (by omega) _ (by omega), ← hrest, ih, hgroup]
          rfl
  | case2 a b =>
      have ha := a.toNat_lt
      have hb := b.toNat_lt
      have hgroup : threeBytes (a.toNat / 4) (a.toNat % 4 * 16 + b.toNat / 16) (b.toNat % 16 * 4) 0 =
          [a, b, 0] := threeBytes_signs a b 0
      have hending := decodeEnding_two (p := a.toNat / 4) (q := a.toNat % 4 * 16 + b.toNat / 16)
        (r := b.toNat % 16 * 4) (by omega) (by omega) (by omega) start (by omega)
      rw [hgroup] at hending
      exact hending
  | case3 a =>
      have ha := a.toNat_lt
      have hgroup : threeBytes (a.toNat / 4) (a.toNat % 4 * 16) 0 0 = [a, 0, 0] :=
        threeBytes_signs a 0 0
      have hending := decodeEnding_one (p := a.toNat / 4) (q := a.toNat % 4 * 16) (by omega) (by omega)
        start (by omega)
      rw [hgroup] at hending
      exact hending
  | case4 => rfl

-- Bytes are read back from the text that they are encoded as.
theorem decode_encode (bytes : List UInt8) : decode ((encode bytes).map code) = .ok bytes := by
  have hlength : (encode bytes).length % 4 ≠ 1 := by
    obtain ⟨groups, hgroups⟩ := length_encode bytes
    omega
  unfold decode
  split
  case h_1 => simp [hlength, decodeFrom_encode]
  case h_2 heq =>
      have hnil := decodeFrom_encode bytes 0
      rw [List.getLast?_eq_none_iff.1 heq] at hnil
      exact hnil

end Patchbay.Base64
