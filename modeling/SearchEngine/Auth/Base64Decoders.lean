import Mathlib.Data.List.TakeWhile
import SearchEngine.Auth.Base64

/-!
# The two decoders of a signature

The issuer and the server decode base64 with the same accumulator, a 32-bit number that is
shifted beyond its width. They differ in what they do with a character that is no digit.
-/

namespace SearchEngine.Auth

/-! ## RsaIdentitySignatureVerifier -/

/-- `(val << 6) + d`. -/
def shiftIn (val : BitVec 32) (d : Nat) : BitVec 32 := (val <<< 6) + BitVec.ofNat 32 d

/-- `(val >> valb) & 0xFF`. -/
def byteAt (val : BitVec 32) (valb : Nat) : UInt8 := ⟨(val.sshiftRight valb).setWidth 8⟩

/-- The loop of the server's `Base64Decode`; `none` is `return {}`. -/
def verifierDecodeFrom (val : BitVec 32) (valb : Int) : Text → Option Bytes
  | [] => some []
  | c :: rest =>
      if c = '=' then some []
      else if c = '\r' ∨ c = '\n' ∨ c = ' ' then verifierDecodeFrom val valb rest
      else match b64Value c with
        | none => none
        | some d =>
            let val := shiftIn val d
            let valb := valb + 6
            if 0 ≤ valb then (verifierDecodeFrom val (valb - 8) rest).map (byteAt val valb.toNat :: ·)
            else verifierDecodeFrom val valb rest

/-- The server's `Base64Decode`; a signature without bytes is refused. -/
def verifierBase64Decode (input : Text) : Bytes := (verifierDecodeFrom 0 (-8) input).getD []

/-! ## CryptoStub, at the width of the machine -/

/-- The loop of the issuer's `Base64Decode`. -/
def issuerDecodeFrom (val : BitVec 32) (valb : Int) : Text → Bytes
  | [] => []
  | c :: rest =>
      if c = '=' then []
      else if c = '\r' ∨ c = '\n' ∨ c = ' ' then issuerDecodeFrom val valb rest
      else match b64Value c with
        | none => issuerDecodeFrom val valb rest
        | some d =>
            let val := shiftIn val d
            let valb := valb + 6
            if 0 ≤ valb then byteAt val valb.toNat :: issuerDecodeFrom val (valb - 8) rest
            else issuerDecodeFrom val valb rest

/-- The issuer's `Base64Decode`. -/
def issuerBase64Decode (input : Text) : Bytes := issuerDecodeFrom 0 (-8) input

theorem b64Value_lt {c : Char} {d : Nat} (digit : b64Value c = some d) : d < 64 := by
  unfold b64Value at digit
  split at digit
  · rename_i upper
    obtain rfl := Option.some.inj digit
    have last : c.toNat ≤ 90 := upper.2
    have first : 'A'.toNat = 65 := rfl
    omega
  · split at digit
    · rename_i lower
      obtain rfl := Option.some.inj digit
      have last : c.toNat ≤ 122 := lower.2
      have first : 'a'.toNat = 97 := rfl
      omega
    · split at digit
      · rename_i number
        obtain rfl := Option.some.inj digit
        have last : c.toNat ≤ 57 := number.2
        have first : '0'.toNat = 48 := rfl
        omega
      · split at digit
        · obtain rfl := Option.some.inj digit
          omega
        · split at digit
          · obtain rfl := Option.some.inj digit
            omega
          · cases digit

theorem toNat_shiftIn (val : BitVec 32) {d : Nat} (small : d < 64) :
    (shiftIn val d).toNat = (val.toNat * 64 + d) % 2 ^ 32 := by
  rw [shiftIn, BitVec.toNat_add, BitVec.toNat_shiftLeft, BitVec.toNat_ofNat, Nat.shiftLeft_eq]
  omega

/-- The byte lies inside the width, so the sign of the accumulator does not reach it. -/
theorem byteAt_eq (val : BitVec 32) {valb : Nat} (inside : valb ≤ 24) :
    byteAt val valb = UInt8.ofNat (val.toNat / 2 ^ valb % 256) := by
  have bits : (val.sshiftRight valb).setWidth 8 = (val >>> valb).setWidth 8 := by
    ext bit isBit
    rw [BitVec.getElem_setWidth, BitVec.getElem_setWidth, BitVec.getLsbD_sshiftRight, BitVec.getLsbD_ushiftRight]
    have low : bit + valb < 32 := by omega
    have wide : ¬ 32 ≤ bit := by omega
    simp [wide, Nat.add_comm valb bit, low]
  apply UInt8.toNat_inj.mp
  rw [byteAt, bits]
  change ((val >>> valb).setWidth 8).toNat = _
  simp [Nat.shiftRight_eq_div_pow]

/-- The machine's accumulator and the number that `decodeFrom` keeps agree. -/
theorem issuerDecodeFrom_eq (text : Text) : ∀ (val : BitVec 32) (valb : Int), valb < 0 →
    issuerDecodeFrom val valb text = decodeFrom val.toNat valb text := by
  induction text with
  | nil => exact fun _ _ _ => rfl
  | cons c rest ih =>
      intro val valb inside
      rw [issuerDecodeFrom, decodeFrom]
      split
      · rfl
      · split
        · exact ih val valb inside
        · cases digit : b64Value c with
          | none => exact ih val valb inside
          | some d =>
              simp only
              rw [← toNat_shiftIn val (b64Value_lt digit)]
              split
              · rename_i full
                rw [ih _ _ (by omega), byteAt_eq _ (by omega)]
              · rename_i more
                exact ih _ _ (by omega)

theorem issuerBase64Decode_eq (text : Text) : issuerBase64Decode text = base64Decode text :=
  issuerDecodeFrom_eq text 0 (-8) (by decide)

/-! ## Foreign characters -/

/-- Neither a digit nor one of the blanks that both decoders skip. -/
def IsForeign (c : Char) : Prop := b64Value c = none ∧ ¬(c = '\r' ∨ c = '\n' ∨ c = ' ')

instance (c : Char) : Decidable (IsForeign c) := inferInstanceAs (Decidable (_ ∧ _))

/-- What stands before the padding. -/
def beforePadding (text : Text) : Text := text.takeWhile (· ≠ '=')

/-- The digits before the padding. -/
def digitsOf (text : Text) : Text := (beforePadding text).filter fun c => (b64Value c).isSome

theorem beforePadding_cons {c : Char} (running : c ≠ '=') (rest : Text) :
    beforePadding (c :: rest) = c :: beforePadding rest := by
  rw [beforePadding, List.takeWhile_cons_of_pos (by simpa using running), beforePadding]

theorem beforePadding_padding (rest : Text) : beforePadding ('=' :: rest) = [] := by
  rw [beforePadding, List.takeWhile_cons_of_neg (by simp)]

/-- Without foreign characters the server decodes as the issuer does. -/
theorem verifierDecodeFrom_of_plain (text : Text) : ∀ (val : BitVec 32) (valb : Int),
    (∀ c ∈ beforePadding text, ¬ IsForeign c) → verifierDecodeFrom val valb text = some (issuerDecodeFrom val valb text) := by
  induction text with
  | nil => exact fun _ _ _ => rfl
  | cons c rest ih =>
      intro val valb plain
      rw [verifierDecodeFrom, issuerDecodeFrom]
      split
      · rfl
      · rename_i running
        rw [beforePadding_cons running, List.forall_mem_cons] at plain
        split
        · exact ih val valb plain.2
        · rename_i shown
          cases digit : b64Value c with
          | none => exact absurd ⟨digit, shown⟩ plain.1
          | some d =>
              simp only
              split
              · rw [ih _ _ plain.2, Option.map_some]
              · exact ih _ _ plain.2

/-- A foreign character before the padding makes the server refuse the text. -/
theorem verifierDecodeFrom_of_foreign (text : Text) : ∀ (val : BitVec 32) (valb : Int),
    ∀ c ∈ beforePadding text, IsForeign c → verifierDecodeFrom val valb text = none := by
  induction text with
  | nil => exact fun _ _ c member => absurd member (by simp [beforePadding])
  | cons first rest ih =>
      intro val valb c member isForeign
      rw [verifierDecodeFrom]
      split
      · rename_i padding
        rw [padding, beforePadding_padding] at member
        cases member
      · rename_i running
        rw [beforePadding_cons running] at member
        split
        · rename_i blank
          rcases List.mem_cons.mp member with rfl | later
          · exact absurd blank isForeign.2
          · exact ih val valb c later isForeign
        · cases digit : b64Value first with
          | none => rfl
          | some d =>
              rcases List.mem_cons.mp member with rfl | later
              · rw [isForeign.1] at digit
                cases digit
              · simp only
                split
                · rw [ih _ _ c later isForeign, Option.map_none]
                · exact ih _ _ c later isForeign

/-- The issuer gives a byte for every eight bits of the digits. -/
theorem length_issuerDecodeFrom (text : Text) : ∀ (val : BitVec 32) (valb : Int), -8 ≤ valb → valb < 0 →
    (issuerDecodeFrom val valb text).length = ((valb + 8).toNat + 6 * (digitsOf text).length) / 8 := by
  induction text with
  | nil =>
      intro val valb low high
      simp only [issuerDecodeFrom, digitsOf, beforePadding, List.takeWhile_nil, List.filter_nil, List.length_nil]
      omega
  | cons c rest ih =>
      intro val valb low high
      rw [issuerDecodeFrom]
      split
      · rename_i padding
        rw [padding, digitsOf, beforePadding_padding]
        simp only [List.filter_nil, List.length_nil]
        omega
      · rename_i running
        rw [digitsOf, beforePadding_cons running]
        split
        · rename_i blank
          have noDigit : b64Value c = none := by
            rcases blank with rfl | rfl | rfl
            · decide
            · decide
            · decide
          rw [ih val valb low high, List.filter_cons_of_neg (by simp [noDigit]), digitsOf]
        · cases digit : b64Value c with
          | none => rw [ih val valb low high, List.filter_cons_of_neg (by simp [digit]), digitsOf]
          | some d =>
              rw [List.filter_cons_of_pos (by simp [digit]), List.length_cons]
              simp only
              split
              · rw [List.length_cons, ih _ _ (by omega) (by omega), digitsOf]
                omega
              · rw [ih _ _ (by omega) (by omega), digitsOf]
                omega

theorem issuerBase64Decode_eq_nil_iff (text : Text) : issuerBase64Decode text = [] ↔ (digitsOf text).length ≤ 1 := by
  rw [← List.length_eq_zero_iff, issuerBase64Decode, length_issuerDecodeFrom text 0 (-8) (by decide) (by decide)]
  have start : ((-8 : Int) + 8).toNat = 0 := by decide
  omega

/-- An encoded text is made of digits and padding. -/
theorem mem_base64Encode {c : Char} (bytes : Bytes) : c ∈ base64Encode bytes → c = '=' ∨ ∃ value, c = sextet value := by
  induction bytes using base64Encode.induct with
  | case1 first second third rest ih =>
      intro member
      simp only [base64Encode, List.mem_cons] at member
      rcases member with rfl | rfl | rfl | rfl | later
      · exact .inr ⟨_, rfl⟩
      · exact .inr ⟨_, rfl⟩
      · exact .inr ⟨_, rfl⟩
      · exact .inr ⟨_, rfl⟩
      · exact ih later
  | case2 first second =>
      intro member
      simp only [base64Encode, List.mem_cons, List.not_mem_nil, or_false] at member
      rcases member with rfl | rfl | rfl | rfl
      · exact .inr ⟨_, rfl⟩
      · exact .inr ⟨_, rfl⟩
      · exact .inr ⟨_, rfl⟩
      · exact .inl rfl
  | case3 first =>
      intro member
      simp only [base64Encode, List.mem_cons, List.not_mem_nil, or_false] at member
      rcases member with rfl | rfl | rfl | rfl
      · exact .inr ⟨_, rfl⟩
      · exact .inr ⟨_, rfl⟩
      · exact .inl rfl
      · exact .inl rfl
  | case4 =>
      intro member
      cases member

theorem plain_base64Encode (bytes : Bytes) : ∀ c ∈ beforePadding (base64Encode bytes), ¬ IsForeign c := by
  intro c member isForeign
  have running : c ≠ '=' := by simpa using List.mem_takeWhile_imp member
  rcases mem_base64Encode bytes (List.takeWhile_subset _ member) with rfl | ⟨value, rfl⟩
  · exact running rfl
  · rw [IsForeign, (b64Value_sextet value).1] at isForeign
    cases isForeign.1

theorem verifierBase64Decode_of_plain {text : Text} (plain : ∀ c ∈ beforePadding text, ¬ IsForeign c) :
    verifierBase64Decode text = issuerBase64Decode text := by
  rw [verifierBase64Decode, verifierDecodeFrom_of_plain text 0 (-8) plain, Option.getD_some, issuerBase64Decode]

theorem verifierBase64Decode_of_foreign {text : Text} {c : Char} (member : c ∈ beforePadding text) (isForeign : IsForeign c) :
    verifierBase64Decode text = [] := by
  rw [verifierBase64Decode, verifierDecodeFrom_of_foreign text 0 (-8) c member isForeign, Option.getD_none]

/-- What the issuer signs with these bytes reads the same on both sides, and both sides read
the text alike. -/
structure CodedAlike (bytes : Bytes) (text : Text) : Prop where
  issuer : issuerBase64Decode (base64Encode bytes) = bytes
  server : verifierBase64Decode (base64Encode bytes) = bytes
  alike : verifierBase64Decode text = issuerBase64Decode text

/-- The two sides agree on a text exactly when no foreign character stands before the
padding, or the issuer finds no byte in it either. -/
theorem codedAlike_iff (bytes : Bytes) (text : Text) :
    CodedAlike bytes text ↔ (∀ c ∈ beforePadding text, ¬ IsForeign c) ∨ (digitsOf text).length ≤ 1 := by
  constructor
  · intro coded
    by_cases plain : ∀ c ∈ beforePadding text, ¬ IsForeign c
    · exact .inl plain
    · push Not at plain
      obtain ⟨c, member, isForeign⟩ := plain
      right
      rw [← issuerBase64Decode_eq_nil_iff, ← coded.alike]
      exact verifierBase64Decode_of_foreign member isForeign
  · intro readable
    have issuer : issuerBase64Decode (base64Encode bytes) = bytes := by
      rw [issuerBase64Decode_eq, base64Decode_base64Encode]
    refine ⟨issuer, (verifierBase64Decode_of_plain (plain_base64Encode bytes)).trans issuer, ?_⟩
    by_cases plain : ∀ c ∈ beforePadding text, ¬ IsForeign c
    · exact verifierBase64Decode_of_plain plain
    · rcases readable with all | short
      · exact absurd all plain
      · push Not at plain
        obtain ⟨c, member, isForeign⟩ := plain
        rw [verifierBase64Decode_of_foreign member isForeign, (issuerBase64Decode_eq_nil_iff text).mpr short]

/-- A tab inside a signature: the issuer skips it and accepts, the server refuses. -/
theorem not_codedAlike_tab : ¬ CodedAlike [] "QU\tJD".toList := by
  intro coded
  exact absurd coded.alike (by decide)

end SearchEngine.Auth
