/-
SignalR/Base64.lean

Base64 with the standard alphabet and padding, as a library of its own.  Three bytes are
four groups of six bits, each of them one character; a last group of one or two bytes is
filled up with `=`.

`decode` accepts the encodings and nothing else: full groups, padding at the end only, and
no stray bits in front of it.  So the two are inverse to each other (`decode_eq_some_iff`).
-/
namespace Base64

/-! ### Six bits -/

/-- The character of six bits. -/
def digit (n : Nat) : Char :=
  if n < 26 then Char.ofNat (n + 65)
  else if n < 52 then Char.ofNat (n + 71)
  else if n < 62 then Char.ofNat (n - 4)
  else if n = 62 then '+' else '/'

/-- The six bits of a character. -/
def value (c : Char) : Option Nat :=
  if 65 ≤ c.toNat ∧ c.toNat ≤ 90 then some (c.toNat - 65)
  else if 97 ≤ c.toNat ∧ c.toNat ≤ 122 then some (c.toNat - 71)
  else if 48 ≤ c.toNat ∧ c.toNat ≤ 57 then some (c.toNat + 4)
  else if c = '+' then some 62
  else if c = '/' then some 63
  else none

theorem value_digit {n : Nat} (h : n < 64) : value (digit n) = some n := by
  have hall : ∀ i : Fin 64, value (digit i) = some i.val := by decide
  exact hall ⟨n, h⟩

theorem value_pad : value '=' = none := rfl

theorem digit_ne_pad {n : Nat} (h : n < 64) : digit n ≠ '=' := by
  intro heq
  have hvalue := value_digit h
  rw [heq, value_pad] at hvalue
  simp at hvalue

/-- A character with a value is the digit of that value. -/
theorem digit_of_value {c : Char} {n : Nat} (h : value c = some n) : n < 64 ∧ digit n = c := by
  rw [value] at h
  split at h
  · rename_i hc
    obtain rfl := Option.some.inj h
    refine ⟨by omega, ?_⟩
    rw [digit, if_pos (by omega), Nat.sub_add_cancel hc.1, Char.ofNat_toNat]
  split at h
  · rename_i hc
    obtain rfl := Option.some.inj h
    refine ⟨by omega, ?_⟩
    rw [digit, if_neg (by omega), if_pos (by omega), Nat.sub_add_cancel (by omega),
      Char.ofNat_toNat]
  split at h
  · rename_i hc
    obtain rfl := Option.some.inj h
    refine ⟨by omega, ?_⟩
    rw [digit, if_neg (by omega), if_neg (by omega), if_pos (by omega), Nat.add_sub_cancel,
      Char.ofNat_toNat]
  split at h
  · rename_i hc
    obtain rfl := Option.some.inj h
    exact ⟨by omega, hc.symm⟩
  split at h
  · rename_i hc
    obtain rfl := Option.some.inj h
    exact ⟨by omega, hc.symm⟩
  · simp at h

/-! ### Groups -/

/-- From bytes to characters. -/
def encode : List UInt8 → List Char
  | [] => []
  | [a] => [digit (a.toNat / 4), digit (a.toNat % 4 * 16), '=', '=']
  | [a, b] =>
      [digit (a.toNat / 4), digit (a.toNat % 4 * 16 + b.toNat / 16), digit (b.toNat % 16 * 4), '=']
  | a :: b :: c :: rest =>
      digit (a.toNat / 4) :: digit (a.toNat % 4 * 16 + b.toNat / 16) ::
        digit (b.toNat % 16 * 4 + c.toNat / 64) :: digit (c.toNat % 64) :: encode rest

/-- The bytes of a padded group. -/
def decodeLast (p q r : Char) : Option (List UInt8) := do
  let x ← value p
  let y ← value q
  if r = '=' then
    if y % 16 = 0 then some [.ofNat (x * 4 + y / 16)] else none
  else
    let z ← value r
    if z % 4 = 0 then some [.ofNat (x * 4 + y / 16), .ofNat (y % 16 * 16 + z / 4)] else none

/-- The bytes of a full group. -/
def decodeGroup (p q r s : Char) (rest : List UInt8) : Option (List UInt8) := do
  let x ← value p
  let y ← value q
  let z ← value r
  let w ← value s
  some (.ofNat (x * 4 + y / 16) :: .ofNat (y % 16 * 16 + z / 4) :: .ofNat (z % 4 * 64 + w) :: rest)

/-- From characters to bytes. -/
def decode : List Char → Option (List UInt8)
  | [] => some []
  | p :: q :: r :: s :: rest =>
      if s = '=' then
        if rest.isEmpty then decodeLast p q r else none
      else (decode rest).bind (decodeGroup p q r s)
  | _ => none

/-- The bits of a byte, put together again. -/
theorem ofNat_eq {a : UInt8} {n : Nat} (h : n = a.toNat) : UInt8.ofNat n = a := by
  rw [h, UInt8.ofNat_toNat]

theorem toNat_ofNat {n : Nat} (h : n < 256) : (UInt8.ofNat n).toNat = n := by
  rw [UInt8.toNat_ofNat']
  exact Nat.mod_eq_of_lt h

/-- **What is encoded is decoded to itself.** -/
theorem decode_encode (l : List UInt8) : decode (encode l) = some l := by
  induction l using encode.induct with
  | case1 => rfl
  | case2 a =>
      have ha := a.toNat_lt
      simp only [encode, decode, if_pos, List.isEmpty_nil, decodeLast,
        value_digit (n := a.toNat / 4) (by omega), value_digit (n := a.toNat % 4 * 16) (by omega)]
      show (if a.toNat % 4 * 16 % 16 = 0 then _ else _) = _
      rw [if_pos (by omega), ofNat_eq (a := a) (by omega)]
  | case3 a b =>
      have ha := a.toNat_lt
      have hb := b.toNat_lt
      have hne : digit (b.toNat % 16 * 4) ≠ '=' := digit_ne_pad (by omega)
      simp only [encode, decode, if_pos, List.isEmpty_nil, decodeLast, if_neg hne,
        value_digit (n := a.toNat / 4) (by omega),
        value_digit (n := a.toNat % 4 * 16 + b.toNat / 16) (by omega),
        value_digit (n := b.toNat % 16 * 4) (by omega)]
      show (if b.toNat % 16 * 4 % 4 = 0 then _ else _) = _
      rw [if_pos (by omega), ofNat_eq (a := a) (by omega), ofNat_eq (a := b) (by omega)]
  | case4 a b c rest ih =>
      have ha := a.toNat_lt
      have hb := b.toNat_lt
      have hc := c.toNat_lt
      have hne : digit (c.toNat % 64) ≠ '=' := digit_ne_pad (by omega)
      simp only [encode, decode, if_neg hne, ih, Option.bind_some, decodeGroup,
        value_digit (n := a.toNat / 4) (by omega),
        value_digit (n := a.toNat % 4 * 16 + b.toNat / 16) (by omega),
        value_digit (n := b.toNat % 16 * 4 + c.toNat / 64) (by omega),
        value_digit (n := c.toNat % 64) (by omega)]
      show some (_ :: _ :: _ :: rest) = _
      rw [ofNat_eq (a := a) (by omega), ofNat_eq (a := b) (by omega),
        ofNat_eq (a := c) (by omega)]

theorem encode_of_decodeLast {p q r : Char} {l : List UInt8} (h : decodeLast p q r = some l) :
    encode l = [p, q, r, '='] := by
  simp only [decodeLast, Option.bind_eq_bind, Option.bind_eq_some_iff] at h
  obtain ⟨x, hx, y, hy, h⟩ := h
  obtain ⟨hx, rfl⟩ := digit_of_value hx
  obtain ⟨hy, rfl⟩ := digit_of_value hy
  split at h
  · rename_i hr
    split at h
    · obtain rfl := Option.some.inj h
      subst hr
      rw [encode, toNat_ofNat (by omega)]
      have h₁ : (x * 4 + y / 16) / 4 = x := by omega
      have h₂ : (x * 4 + y / 16) % 4 * 16 = y := by omega
      rw [h₁, h₂]
    · simp at h
  · obtain ⟨z, hz, hbytes⟩ := Option.bind_eq_some_iff.mp h
    obtain ⟨hz, rfl⟩ := digit_of_value hz
    split at hbytes
    · obtain rfl := Option.some.inj hbytes
      rw [encode, toNat_ofNat (by omega), toNat_ofNat (by omega)]
      have h₁ : (x * 4 + y / 16) / 4 = x := by omega
      have h₂ : (x * 4 + y / 16) % 4 * 16 + (y % 16 * 16 + z / 4) / 16 = y := by omega
      have h₃ : (y % 16 * 16 + z / 4) % 16 * 4 = z := by omega
      rw [h₁, h₂, h₃]
    · simp at hbytes

theorem encode_of_decodeGroup {p q r s : Char} {rest l : List UInt8}
    (h : decodeGroup p q r s rest = some l) : encode l = p :: q :: r :: s :: encode rest := by
  simp only [decodeGroup, Option.bind_eq_bind, Option.bind_eq_some_iff] at h
  obtain ⟨x, hx, y, hy, z, hz, w, hw, h⟩ := h
  obtain ⟨hx, rfl⟩ := digit_of_value hx
  obtain ⟨hy, rfl⟩ := digit_of_value hy
  obtain ⟨hz, rfl⟩ := digit_of_value hz
  obtain ⟨hw, rfl⟩ := digit_of_value hw
  obtain rfl := Option.some.inj h
  rw [encode, toNat_ofNat (by omega), toNat_ofNat (by omega), toNat_ofNat (by omega)]
  have h₁ : (x * 4 + y / 16) / 4 = x := by omega
  have h₂ : (x * 4 + y / 16) % 4 * 16 + (y % 16 * 16 + z / 4) / 16 = y := by omega
  have h₃ : (y % 16 * 16 + z / 4) % 16 * 4 + (z % 4 * 64 + w) / 64 = z := by omega
  have h₄ : (z % 4 * 64 + w) % 64 = w := by omega
  rw [h₁, h₂, h₃, h₄]

/-- **What is decoded was encoded so.** -/
theorem encode_of_decode {t : List Char} {l : List UInt8} (h : decode t = some l) :
    encode l = t := by
  induction t using decode.induct generalizing l with
  | case1 =>
      obtain rfl := Option.some.inj h
      rfl
  | case2 p q r rest hrest =>
      rw [decode, if_pos rfl, if_pos hrest] at h
      rw [encode_of_decodeLast h, List.isEmpty_iff.mp hrest]
  | case3 p q r rest hrest =>
      rw [decode, if_pos rfl, if_neg hrest] at h
      simp at h
  | case4 p q r s rest hs ih =>
      rw [decode, if_neg hs] at h
      obtain ⟨l', hl', h⟩ := Option.bind_eq_some_iff.mp h
      rw [encode_of_decodeGroup h, ih hl']
  | case5 t hnil hgroup =>
      rw [decode] at h
      · simp at h
      · exact hnil
      · exact hgroup

/-- **The round trip**, in both directions. -/
theorem decode_eq_some_iff {t : List Char} {l : List UInt8} : decode t = some l ↔ encode l = t := by
  constructor
  · exact encode_of_decode
  · rintro rfl
    exact decode_encode l

/-! ### The alphabet -/

/-- The characters of an encoding. -/
def IsCode (c : Char) : Prop :=
  c = '=' ∨ ∃ n < 64, c = digit n

theorem isCode_of_mem_encode {l : List UInt8} {c : Char} (h : c ∈ encode l) : IsCode c := by
  have hdigit : ∀ {n : Nat}, n < 64 → IsCode (digit n) := fun hn => .inr ⟨_, hn, rfl⟩
  induction l using encode.induct with
  | case1 => simp [encode] at h
  | case2 a =>
      have ha := a.toNat_lt
      simp only [encode, List.mem_cons, List.not_mem_nil, or_false] at h
      rcases h with rfl | rfl | rfl | rfl
      · exact hdigit (by omega)
      · exact hdigit (by omega)
      · exact .inl rfl
      · exact .inl rfl
  | case3 a b =>
      have ha := a.toNat_lt
      have hb := b.toNat_lt
      simp only [encode, List.mem_cons, List.not_mem_nil, or_false] at h
      rcases h with rfl | rfl | rfl | rfl
      · exact hdigit (by omega)
      · exact hdigit (by omega)
      · exact hdigit (by omega)
      · exact .inl rfl
  | case4 a b c' rest ih =>
      have ha := a.toNat_lt
      have hb := b.toNat_lt
      have hc := c'.toNat_lt
      simp only [encode, List.mem_cons] at h
      rcases h with rfl | rfl | rfl | rfl | h
      · exact hdigit (by omega)
      · exact hdigit (by omega)
      · exact hdigit (by omega)
      · exact hdigit (by omega)
      · exact ih h

/-- No encoding contains a control character, or any other that is not visible. -/
theorem IsCode.visible {c : Char} (h : IsCode c) : 33 ≤ c.toNat ∧ c.toNat ≤ 126 := by
  rcases h with rfl | ⟨n, hn, rfl⟩
  · decide
  · have hall : ∀ i : Fin 64, 33 ≤ (digit i).toNat ∧ (digit i).toNat ≤ 126 := by decide
    exact hall ⟨n, hn⟩

end Base64
