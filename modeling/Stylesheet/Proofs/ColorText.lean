import Stylesheet.Color.Hsl
import Stylesheet.Node.Basic
import Stylesheet.Proofs.Calculation

/-!
# Colours as text

A colour is read from a hexadecimal literal or a keyword, and printed by its remembered text, by a keyword
or in the long hexadecimal form. This file says which texts are literals and what they denote, and that
reading and printing agree.

* `Color.Spells`: what the characters of a hexadecimal literal denote, pair by pair. It is all that the
  reader accepts (`Color.ofHex?_eq_some_iff`).
* **Literals** (`Color.ofHex?_accepts`): apart from plus signs, a literal is a hash sign and three or six
  digits. A plus sign can stand for the first digit of a pair in the long form.
* `Color.Made`: the colours that can be had. Each of them is computed, and then has no text, or it is what
  its text denotes (`Color.Made.computed_or_literal`).
* **Printing** (`Color.Made.ofColorText_toCss`): the text of an opaque colour denotes the colour with each
  channel rounded to the nearest byte.
-/

namespace Stylesheet

/-! ## Digits

The reader goes by the codes of characters; the statement goes by two written rows of digits. -/

namespace Text

/-- The character stands at place `value` in one of the rows of digits. -/
def IsHexDigit (c : Char) (value : Nat) : Prop :=
  "0123456789abcdef".toList[value]? = some c ∨ "0123456789ABCDEF".toList[value]? = some c

/-- In a stretch of a row where the characters follow one another, a character stands at its distance from
the first one. -/
lemma getElem?_of_consecutive {row : List Char} {low c : Char} {start count : Nat}
    (hrow : ∀ k < count, row[k + start]? = some (Char.ofNat (low.toNat + k))) (hlow : low ≤ c)
    (hhigh : c.toNat < low.toNat + count) : row[c.toNat - low.toNat + start]? = some c := by
  have hle : low.toNat ≤ c.toNat := hlow
  rw [hrow _ (by omega), Nat.add_sub_cancel' hle, Char.ofNat_toNat]

/-- The digits that are read are the hexadecimal ones, with their values. -/
lemma hexDigit?_eq_some_iff {c : Char} {value : Nat} :
    hexDigit? c = some value ↔ IsHexDigit c value := by
  constructor
  · intro h
    unfold hexDigit? at h
    split_ifs at h with hdigit hlower hupper
    · obtain rfl := Option.some.inj h
      exact .inl (@getElem?_of_consecutive _ '0' c 0 10 (by decide) hdigit.1 (Nat.lt_succ_of_le hdigit.2))
    · obtain rfl := Option.some.inj h
      exact .inl (@getElem?_of_consecutive _ 'a' c 10 6 (by decide) hlower.1 (Nat.lt_succ_of_le hlower.2))
    · obtain rfl := Option.some.inj h
      exact .inr (@getElem?_of_consecutive _ 'A' c 10 6 (by decide) hupper.1 (Nat.lt_succ_of_le hupper.2))
  · have hlower : ∀ k < 16, ("0123456789abcdef".toList[k]?).bind hexDigit? = some k := by decide
    have hupper : ∀ k < 16, ("0123456789ABCDEF".toList[k]?).bind hexDigit? = some k := by decide
    rintro (h | h)
    · have hread := hlower value (List.getElem?_eq_some_iff.mp h).1
      rwa [h] at hread
    · have hread := hupper value (List.getElem?_eq_some_iff.mp h).1
      rwa [h] at hread

/-- A digit is worth less than sixteen. -/
lemma IsHexDigit.lt {c : Char} {value : Nat} (h : IsHexDigit c value) : value < 16 := by
  rcases h with h | h
  · exact (List.getElem?_eq_some_iff.mp h).1
  · exact (List.getElem?_eq_some_iff.mp h).1

/-- A plus sign is no digit. -/
lemma not_isHexDigit_plus (value : Nat) : ¬IsHexDigit '+' value := by
  intro h
  have hnone : hexDigit? '+' = none := by decide
  rw [hexDigit?_eq_some_iff.mpr h] at hnone
  cases hnone

/-- The digit that is printed is read back. -/
lemma hexDigit?_digitChar {d : Nat} (h : d < 16) : hexDigit? (Nat.digitChar d) = some d := by
  have hread : ∀ k < 16, hexDigit? (Nat.digitChar k) = some k := by decide
  exact hread d h

end Text

namespace Color

/-! ## Hexadecimal literals

Each pair of characters is read as a number, and a number may have a plus sign in front. So a plus sign
can stand where the first digit of a pair would be. In the short form every character is doubled, and two
plus signs are no number. -/

/-- What two characters denote. -/
inductive HexPair : Char → Char → Nat → Prop
  | digits {high low : Char} {h l : Nat} (hhigh : Text.IsHexDigit high h) (hlow : Text.IsHexDigit low l) :
    HexPair high low (16 * h + l)
  | signed {low : Char} {l : Nat} (hlow : Text.IsHexDigit low l) : HexPair '+' low l

/-- The channels that a hexadecimal literal denotes. -/
inductive Spells : List Char → Nat → Nat → Nat → Prop
  | short {r g b : Char} {red green blue : Nat} (hr : HexPair r r red) (hg : HexPair g g green)
    (hb : HexPair b b blue) : Spells ['#', r, g, b] red green blue
  | long {r₁ r₂ g₁ g₂ b₁ b₂ : Char} {red green blue : Nat} (hr : HexPair r₁ r₂ red)
    (hg : HexPair g₁ g₂ green) (hb : HexPair b₁ b₂ blue) :
    Spells ['#', r₁, r₂, g₁, g₂, b₁, b₂] red green blue

/-- A hash sign and three or six digits. -/
def IsHexLiteral (text : String) : Prop :=
  ∃ digits, text.toList = '#' :: digits ∧ (digits.length = 3 ∨ digits.length = 6) ∧
    ∀ d ∈ digits, ∃ value, Text.IsHexDigit d value

/-- Two digits make less than 256. -/
lemma HexPair.lt {high low : Char} {value : Nat} (h : HexPair high low value) : value < 256 := by
  cases h with
  | digits hhigh hlow =>
    have := hhigh.lt
    have := hlow.lt
    omega
  | signed hlow =>
    have := hlow.lt
    omega

/-- A pair is read as a byte if and only if it makes the value of the byte. -/
lemma hexPair?_eq_some_iff {high low : Char} {b : UInt8} :
    hexPair? high low = some b ↔ HexPair high low b.toNat := by
  constructor
  · intro h
    unfold hexPair? at h
    split_ifs at h with hplus
    · obtain ⟨l, hl, rfl⟩ := Option.map_eq_some_iff.mp h
      have hdigit := Text.hexDigit?_eq_some_iff.mp hl
      have hlt := hdigit.lt
      rw [hplus, UInt8.toNat_ofNat_of_lt' (show l < 256 by omega)]
      exact .signed hdigit
    · obtain ⟨h', hh, h⟩ := Option.bind_eq_some_iff.mp h
      obtain ⟨l, hl, h⟩ := Option.bind_eq_some_iff.mp h
      obtain rfl := Option.some.inj h
      have hpair := HexPair.digits (Text.hexDigit?_eq_some_iff.mp hh) (Text.hexDigit?_eq_some_iff.mp hl)
      rw [UInt8.toNat_ofNat_of_lt' hpair.lt]
      exact hpair
  · intro h
    generalize hvalue : b.toNat = value at h
    have hb : b = UInt8.ofNat value := by rw [← hvalue, UInt8.ofNat_toNat]
    cases h with
    | digits hhigh hlow =>
      have hne : high ≠ '+' := by
        rintro rfl
        exact Text.not_isHexDigit_plus _ hhigh
      simp [hexPair?, hne, Text.hexDigit?_eq_some_iff.mpr hhigh, Text.hexDigit?_eq_some_iff.mpr hlow, hb]
    | signed hlow => simp [hexPair?, Text.hexDigit?_eq_some_iff.mpr hlow, hb]

/-- Three pairs are read if each of them is. -/
lemma bytes_eq_some_iff {r₁ r₂ g₁ g₂ b₁ b₂ : Char} {b : Bytes} :
    (do return ⟨← hexPair? r₁ r₂, ← hexPair? g₁ g₂, ← hexPair? b₁ b₂⟩ : Option Bytes) = some b ↔
      HexPair r₁ r₂ b.red.toNat ∧ HexPair g₁ g₂ b.green.toNat ∧ HexPair b₁ b₂ b.blue.toNat := by
  simp only [← hexPair?_eq_some_iff]
  constructor
  · intro h
    obtain ⟨red, hr, h⟩ := Option.bind_eq_some_iff.mp h
    obtain ⟨green, hg, h⟩ := Option.bind_eq_some_iff.mp h
    obtain ⟨blue, hb, h⟩ := Option.bind_eq_some_iff.mp h
    obtain rfl := Option.some.inj h
    exact ⟨hr, hg, hb⟩
  · rintro ⟨hr, hg, hb⟩
    rw [hr, hg, hb]
    rfl

/-- Three or six digits are read as bytes if and only if they spell these bytes. -/
lemma hexBytes?_eq_some_iff {digits : List Char} {b : Bytes} :
    hexBytes? digits = some b ↔ Spells ('#' :: digits) b.red.toNat b.green.toNat b.blue.toNat := by
  constructor
  · intro h
    unfold hexBytes? at h
    split at h
    · obtain ⟨hr, hg, hb⟩ := bytes_eq_some_iff.mp h
      exact .short hr hg hb
    · obtain ⟨hr, hg, hb⟩ := bytes_eq_some_iff.mp h
      exact .long hr hg hb
    · cases h
  · intro h
    cases h with
    | short hr hg hb => exact bytes_eq_some_iff.mpr ⟨hr, hg, hb⟩
    | long hr hg hb => exact bytes_eq_some_iff.mpr ⟨hr, hg, hb⟩

/-- Bytes are in range, so a literal has them as they are. -/
lemma ofBytes_eq (b : Bytes) (text : String) :
    ofBytes b text = ⟨Float.ofNat b.red.toNat, Float.ofNat b.green.toNat, Float.ofNat b.blue.toNat, 1,
      some text⟩ := by
  simp only [ofBytes, ofChannels, clamp_ofNat b.red.toNat_lt, clamp_ofNat b.green.toNat_lt,
    clamp_ofNat b.blue.toNat_lt, clamp_zero_one_one]

/-- All channels that a text spells are bytes. -/
lemma Spells.lt {chars : List Char} {red green blue : Nat} (h : Spells chars red green blue) :
    red < 256 ∧ green < 256 ∧ blue < 256 := by
  cases h with
  | short hr hg hb => exact ⟨hr.lt, hg.lt, hb.lt⟩
  | long hr hg hb => exact ⟨hr.lt, hg.lt, hb.lt⟩

/-- A text is read as a colour if and only if it spells three bytes, and the colour then has these bytes
and keeps the text. -/
lemma ofHex?_eq_some_iff_bytes {text : String} {c : Color} :
    ofHex? text = some c ↔
      ∃ b : Bytes, Spells text.toList b.red.toNat b.green.toNat b.blue.toNat ∧ c = ofBytes b text := by
  unfold ofHex?
  split
  · rename_i digits htext
    rw [htext, Option.map_eq_some_iff]
    simp only [hexBytes?_eq_some_iff, @eq_comm _ c]
  · rename_i hne
    constructor
    · intro h
      cases h
    · rintro ⟨b, hb, -⟩
      generalize text.toList = chars at hb hne
      cases hb with
      | short => exact absurd rfl (hne _)
      | long => exact absurd rfl (hne _)

/-- The reader accepts what spells a colour, and gives the channels that are spelled. -/
lemma ofHex?_eq_some_iff {text : String} {c : Color} :
    ofHex? text = some c ↔ ∃ red green blue, Spells text.toList red green blue ∧
      c = ⟨Float.ofNat red, Float.ofNat green, Float.ofNat blue, 1, some text⟩ := by
  rw [ofHex?_eq_some_iff_bytes]
  constructor
  · rintro ⟨b, hb, rfl⟩
    exact ⟨_, _, _, hb, ofBytes_eq b text⟩
  · rintro ⟨red, green, blue, h, rfl⟩
    obtain ⟨hr, hg, hb⟩ := h.lt
    refine ⟨⟨UInt8.ofNat red, UInt8.ofNat green, UInt8.ofNat blue⟩, ?_, ?_⟩
    · simpa only [UInt8.toNat_ofNat_of_lt' hr, UInt8.toNat_ofNat_of_lt' hg, UInt8.toNat_ofNat_of_lt' hb]
        using h
    · simp only [ofBytes_eq, UInt8.toNat_ofNat_of_lt' hr, UInt8.toNat_ofNat_of_lt' hg,
        UInt8.toNat_ofNat_of_lt' hb]

/-- Without a sign both characters of a pair are digits. -/
lemma HexPair.isHexDigit {high low : Char} {value : Nat} (h : HexPair high low value) (hne : high ≠ '+') :
    (∃ v, Text.IsHexDigit high v) ∧ ∃ v, Text.IsHexDigit low v := by
  cases h with
  | digits hhigh hlow => exact ⟨⟨_, hhigh⟩, ⟨_, hlow⟩⟩
  | signed => exact absurd rfl hne

/-- What spells three bytes is a literal, as long as there is no plus sign in it. -/
lemma Spells.isHexLiteral {text : String} {red green blue : Nat} (h : Spells text.toList red green blue)
    (hplus : '+' ∉ text.toList) : IsHexLiteral text := by
  unfold IsHexLiteral
  generalize text.toList = chars at h hplus
  cases h with
  | short hr hg hb =>
    simp only [List.mem_cons, not_or] at hplus
    obtain ⟨-, hr', hg', hb', -⟩ := hplus
    have hr := hr.isHexDigit (Ne.symm hr')
    have hg := hg.isHexDigit (Ne.symm hg')
    have hb := hb.isHexDigit (Ne.symm hb')
    exact ⟨_, rfl, .inl rfl, by simp [hr.1, hg.1, hb.1]⟩
  | long hr hg hb =>
    simp only [List.mem_cons, not_or] at hplus
    obtain ⟨-, hr', -, hg', -, hb', -⟩ := hplus
    have hr := hr.isHexDigit (Ne.symm hr')
    have hg := hg.isHexDigit (Ne.symm hg')
    have hb := hb.isHexDigit (Ne.symm hb')
    exact ⟨_, rfl, .inr rfl, by simp [hr.1, hr.2, hg.1, hg.2, hb.1, hb.2]⟩

/-- A literal spells three bytes, and there is no plus sign in it. -/
lemma IsHexLiteral.spells {text : String} (h : IsHexLiteral text) :
    '+' ∉ text.toList ∧ ∃ red green blue, Spells text.toList red green blue := by
  obtain ⟨digits, htext, hlength, hdigits⟩ := h
  rw [htext]
  constructor
  · intro hplus
    rcases List.mem_cons.mp hplus with hplus | hplus
    · cases hplus
    · obtain ⟨value, hvalue⟩ := hdigits _ hplus
      exact Text.not_isHexDigit_plus value hvalue
  · rcases hlength with hlength | hlength
    · obtain ⟨r, g, b, rfl⟩ := List.length_eq_three.mp hlength
      simp only [List.forall_mem_cons] at hdigits
      obtain ⟨⟨_, hr⟩, ⟨_, hg⟩, ⟨_, hb⟩, -⟩ := hdigits
      exact ⟨_, _, _, .short (.digits hr hr) (.digits hg hg) (.digits hb hb)⟩
    · obtain ⟨r₁, r₂, g₁, g₂, b₁, b₂, rfl⟩ : ∃ r₁ r₂ g₁ g₂ b₁ b₂, digits = [r₁, r₂, g₁, g₂, b₁, b₂] := by
        rcases digits with _ | ⟨r₁, _ | ⟨r₂, _ | ⟨g₁, _ | ⟨g₂, _ | ⟨b₁, _ | ⟨b₂, _ | ⟨_, _⟩⟩⟩⟩⟩⟩⟩
        all_goals simp at hlength
        exact ⟨r₁, r₂, g₁, g₂, b₁, b₂, rfl⟩
      simp only [List.forall_mem_cons] at hdigits
      obtain ⟨⟨_, hr₁⟩, ⟨_, hr₂⟩, ⟨_, hg₁⟩, ⟨_, hg₂⟩, ⟨_, hb₁⟩, ⟨_, hb₂⟩, -⟩ := hdigits
      exact ⟨_, _, _, .long (.digits hr₁ hr₂) (.digits hg₁ hg₂) (.digits hb₁ hb₂)⟩

/-- **Which texts are hexadecimal literals.** The reader accepts what spells a colour; the colour is opaque,
it has the channels that are spelled and it is printed as it was written. The texts without a plus sign
among them are the hash signs with three or six digits. -/
theorem ofHex?_accepts (text : String) :
    (∀ c, ofHex? text = some c ↔ ∃ red green blue, Spells text.toList red green blue ∧
      c = ⟨Float.ofNat red, Float.ofNat green, Float.ofNat blue, 1, some text⟩) ∧
    (∀ c, ofHex? text = some c → c.toCss = text) ∧
    ((ofHex? text).isSome ∧ '+' ∉ text.toList ↔ IsHexLiteral text) := by
  refine ⟨fun c => ofHex?_eq_some_iff, ?_, ?_, ?_⟩
  · intro c hc
    obtain ⟨red, green, blue, -, rfl⟩ := ofHex?_eq_some_iff.mp hc
    rfl
  · rintro ⟨hsome, hplus⟩
    obtain ⟨c, hc⟩ := Option.isSome_iff_exists.mp hsome
    obtain ⟨red, green, blue, h, -⟩ := ofHex?_eq_some_iff.mp hc
    exact h.isHexLiteral hplus
  · intro h
    obtain ⟨hplus, red, green, blue, hspells⟩ := h.spells
    exact ⟨Option.isSome_iff_exists.mpr ⟨_, ofHex?_eq_some_iff.mpr ⟨red, green, blue, hspells, rfl⟩⟩, hplus⟩

example : (ofHex? "#+1+2+3").isSome = true := by decide

/-! ## Reading what was printed

A colour without a text of its own is printed by a keyword if there is one for its bytes, and else by six
digits. Either is read as the bytes that were printed. -/

/-- Hexadecimal text is tried before the keywords. -/
lemma ofText?_of_ofHex? {text : String} {c : Color} (h : ofHex? text = some c) : ofText? text = some c := by
  rw [ofText?, h, Option.some_or]

/-- The two characters of a byte are read back. -/
lemma hexPair_hexText (b : UInt8) :
    HexPair (Nat.digitChar (b.toNat / 16)) (Nat.digitChar (b.toNat % 16)) b.toNat := by
  have hhigh : b.toNat / 16 < 16 := by
    have := b.toNat_lt
    omega
  have hlow : b.toNat % 16 < 16 := Nat.mod_lt _ (by decide)
  have hpair := HexPair.digits (Text.hexDigit?_eq_some_iff.mp (Text.hexDigit?_digitChar hhigh))
    (Text.hexDigit?_eq_some_iff.mp (Text.hexDigit?_digitChar hlow))
  rwa [Nat.div_add_mod] at hpair

/-- The text that is written for three bytes is read as a colour of these bytes. -/
lemma ofText?_toHex (b : Bytes) : ofText? b.toHex = some (ofBytes b b.toHex) := by
  apply ofText?_of_ofHex?
  rw [ofHex?_eq_some_iff_bytes]
  refine ⟨b, ?_, rfl⟩
  have hchars : b.toHex.toList = ['#', Nat.digitChar (b.red.toNat / 16), Nat.digitChar (b.red.toNat % 16),
      Nat.digitChar (b.green.toNat / 16), Nat.digitChar (b.green.toNat % 16),
      Nat.digitChar (b.blue.toNat / 16), Nat.digitChar (b.blue.toNat % 16)] := by
    simp [Bytes.toHex, hexText]
  rw [hchars]
  exact .long (hexPair_hexText b.red) (hexPair_hexText b.green) (hexPair_hexText b.blue)

/-- No keyword is a hexadecimal literal, in whatever letter case it is written. -/
lemma ofHex?_of_ofKeyword? {name : String} {c : Color} (h : ofKeyword? name = some c) :
    ofHex? name = none := by
  obtain ⟨entry, hentry, -⟩ := Option.map_eq_some_iff.mp h
  have hsame : Text.lower entry.1 = Text.lower name := by
    simpa [Text.sameLetters] using List.find?_some hentry
  have hhash : ∀ e ∈ keywords, (Text.lower e.1).toList.head? ≠ some '#' := by decide
  have hname := hhash entry (List.mem_of_find?_eq_some hentry)
  rw [hsame] at hname
  unfold ofHex?
  split
  · rename_i digits htext
    exact absurd (by simp [Text.lower, htext]) hname
  · rfl

/-- A keyword is no hexadecimal text, so it is read by the table. -/
lemma ofText?_of_ofKeyword? {name : String} {c : Color} (h : ofKeyword? name = some c) :
    ofText? name = some c := by
  rw [ofText?, ofHex?_of_ofKeyword? h, Option.none_or, h]

/-- Every keyword is read as the colour that the table gives for it. -/
lemma ofText?_keyword {entry : String × Bytes} (h : entry ∈ keywords) :
    ofText? entry.1 = some (ofBytes entry.2 entry.1) := by
  have hfind : ∀ e ∈ keywords, keywords.find? (fun e' => Text.sameLetters e'.1 e.1) = some e := by decide
  apply ofText?_of_ofKeyword?
  rw [ofKeyword?, hfind entry h]
  rfl

/-- A computed opaque colour is printed by a text that denotes its bytes. -/
lemma ofText?_toCss {c : Color} (hsource : c.source = none) (halpha : ¬c.alpha < 1) :
    ofText? c.toCss = some (ofBytes c.bytes c.toCss) := by
  have htext : c.toCss = c.keyword?.getD c.bytes.toHex := by
    simp only [toCss, hsource, if_neg halpha]
  rw [htext]
  cases hkeyword : c.keyword? with
  | none => exact ofText?_toHex c.bytes
  | some name =>
    rw [keyword?, if_neg halpha] at hkeyword
    obtain ⟨entry, hentry, rfl⟩ := Option.map_eq_some_iff.mp hkeyword
    have hbytes : entry.2 = c.bytes := by simpa using List.find?_some hentry
    rw [← hbytes]
    exact ofText?_keyword (List.mem_of_find?_eq_some hentry)

/-! ## The colours there are

A colour that was read keeps its text, and is printed by it. The text would be wrong if a channel could
change under it. `Made` lists all ways to come by a colour, and every one of them that computes drops the
text. -/

/-- The colours that can be had from texts and numbers. -/
inductive Made : Color → Prop
  | ofHex {text : String} {c : Color} (h : ofHex? text = some c) : Made c
  | ofKeyword {name : String} {c : Color} (h : ofKeyword? name = some c) : Made c
  | ofChannels (red green blue alpha : Float) : Made (ofChannels red green blue alpha)
  | grey (value : Float) : Made (grey value)
  | ofHsl (p : Hsl) (alpha : Float) : Made (ofHsl p alpha)
  | operate {op : Operator} {a b c : Color} (ha : Made a) (hb : Made b) (h : operate op a b = .ok c) : Made c
  | withChannel {c : Color} (hc : Made c) (i : Channel) (value : Float) : Made (c.withChannel i value)
  | withAlpha {c : Color} (hc : Made c) (alpha : Float) : Made (c.withAlpha alpha)

/-- Calculating with colours makes a colour from channels, with the opacity of the first one. -/
lemma exists_eq_ofChannels_of_operate {op : Operator} {a b c : Color} (h : operate op a b = .ok c) :
    ∃ red green blue, c = ofChannels red green blue a.alpha := by
  have hcomes := operate_comesTo op a b
  rw [h] at hcomes
  cases hcomes with
  | ok hc => exact hc

/-- A colour is computed and has no text, or it is the literal that its text denotes. -/
lemma Made.computed_or_literal {c : Color} (hc : Made c) :
    (∃ red green blue alpha, c = Color.ofChannels red green blue alpha) ∨
      ∃ b text, c = ofBytes b text ∧ ofText? text = some c := by
  cases hc with
  | ofHex h =>
    obtain ⟨b, -, hb⟩ := ofHex?_eq_some_iff_bytes.mp h
    exact .inr ⟨b, _, hb, ofText?_of_ofHex? h⟩
  | ofKeyword h =>
    obtain ⟨entry, -, hb⟩ := Option.map_eq_some_iff.mp h
    exact .inr ⟨entry.2, _, hb.symm, ofText?_of_ofKeyword? h⟩
  | ofChannels => exact .inl ⟨_, _, _, _, rfl⟩
  | grey => exact .inl ⟨_, _, _, _, rfl⟩
  | ofHsl => exact .inl ⟨_, _, _, _, rfl⟩
  | operate _ _ h =>
    obtain ⟨red, green, blue, hc⟩ := exists_eq_ofChannels_of_operate h
    exact .inl ⟨red, green, blue, _, hc⟩
  | withChannel _ i _ => cases i <;> exact .inl ⟨_, _, _, _, rfl⟩
  | withAlpha => exact .inl ⟨_, _, _, _, rfl⟩

/-! ## Printing -/

/-- The byte of a channel. -/
def Bytes.channel (b : Bytes) : Channel → UInt8
  | .red => b.red
  | .green => b.green
  | .blue => b.blue

/-- The channels of a colour from bytes are these bytes. -/
lemma channel_ofBytes (b : Bytes) (text : String) (i : Channel) :
    (ofBytes b text).channel i = Float.ofNat (b.channel i).toNat := by
  rw [ofBytes_eq]
  cases i <;> rfl

/-- The channels of a computed colour are rounded when it is printed. -/
lemma bytes_roundsTo (red green blue alpha : Float) (i : Channel) :
    RoundsTo ((ofChannels red green blue alpha).channel i)
      ((ofChannels red green blue alpha).bytes.channel i).toNat := by
  have hclamp (x : Float) : RoundsTo (clamp 0 255 x) (nearestByte (clamp 0 255 x)).toNat :=
    nearestByte_roundsTo (clamp_within exactValue?_zero exactValue?_maxByte (by norm_num) x)
  cases i with
  | red => exact hclamp red
  | green => exact hclamp green
  | blue => exact hclamp blue

/-- A byte rounds to itself. -/
lemma roundsTo_ofNat {n : Nat} (h : n < 256) : RoundsTo (Float.ofNat n) n :=
  .inr ⟨n, exactValue?_ofNat h, by linarith, by linarith⟩

/-- An opaque colour is printed by a text for bytes to which its channels round. -/
lemma Made.exists_bytes {c : Color} (hc : Made c) (halpha : ¬c.alpha < 1) :
    ∃ b : Bytes, ofText? c.toCss = some (ofBytes b c.toCss) ∧
      ∀ i, RoundsTo (c.channel i) (b.channel i).toNat := by
  rcases hc.computed_or_literal with ⟨red, green, blue, alpha, rfl⟩ | ⟨b, text, rfl, htext⟩
  · exact ⟨_, ofText?_toCss rfl halpha, bytes_roundsTo red green blue alpha⟩
  · refine ⟨b, htext, fun i => ?_⟩
    rw [channel_ofBytes]
    exact roundsTo_ofNat (b.channel i).toNat_lt

/-- **What is printed is what there is.** The text of an opaque colour is read as the opaque colour with each
channel rounded to the nearest byte. A remembered text denotes the colour beside it, and nothing that
computes a colour keeps one. -/
theorem Made.ofColorText_toCss {c : Color} (hc : Made c) (halpha : ¬c.alpha < 1) :
    (∃ d, Node.ofColorText c.toCss = .color d ∧ d.alpha = 1 ∧
      ∀ i, ∃ n < 256, d.channel i = Float.ofNat n ∧ RoundsTo (c.channel i) n) ∧
    (∀ text, c.source = some text → ofText? text = some c) ∧
    (∀ op e f, Color.operate op c e = .ok f → f.source = none) ∧
    (∀ i value, (c.withChannel i value).source = none) ∧
    ∀ alpha, (c.withAlpha alpha).source = none := by
  refine ⟨?_, ?_, ?_, ?_, fun _ => rfl⟩
  · obtain ⟨b, htext, hround⟩ := hc.exists_bytes halpha
    refine ⟨ofBytes b c.toCss, ?_, ?_, fun i => ?_⟩
    · simp only [Node.ofColorText, htext]
    · rw [ofBytes_eq]
    · exact ⟨(b.channel i).toNat, (b.channel i).toNat_lt, channel_ofBytes b _ i, hround i⟩
  · intro text hsource
    rcases hc.computed_or_literal with ⟨red, green, blue, alpha, rfl⟩ | ⟨b, text', rfl, htext⟩
    · cases hsource
    · obtain rfl := Option.some.inj hsource
      exact htext
  · intro op e f hf
    obtain ⟨red, green, blue, rfl⟩ := exists_eq_ofChannels_of_operate hf
    rfl
  · intro i value
    cases i <;> rfl

/-- A literal with another channel, halfway between two bytes. -/
def printSample : Color :=
  (ofBytes ⟨0x00, 0xff, 0x88⟩ "#0F8").withChannel .red 127.5

/-- A literal with one channel halfway between two bytes: it is read back with the channel rounded. -/
theorem Made.ofColorText_toCss_printSample :
    Made printSample ∧ ¬printSample.alpha < 1 ∧
      ∃ d, Node.ofColorText printSample.toCss = .color d ∧ d.alpha = 1 ∧
        ∀ i, ∃ n < 256, d.channel i = Float.ofNat n ∧ RoundsTo (printSample.channel i) n := by
  have hmade : Made printSample := .withChannel (@Made.ofHex "#0F8" _ rfl) .red 127.5
  have halpha : ¬printSample.alpha < 1 := by decide +kernel
  exact ⟨hmade, halpha, (Made.ofColorText_toCss hmade halpha).1⟩

end Color

end Stylesheet
