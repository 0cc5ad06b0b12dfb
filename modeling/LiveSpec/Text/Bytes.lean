/-!
# Texts and bytes

Files hold bytes. A text is written as its bytes in UTF-8, and bytes that are such can be read as a
text again.

Where a text is wanted of any bytes, what is no character among them is replaced by a mark. Bytes
that begin a character which is not ended make one mark together, up to the first byte that cannot
go on with it; every other byte that is out of place makes one of its own.
-/

namespace LiveSpec

/-- Bytes, as files hold them. -/
structure Bytes where
  list : List UInt8
deriving DecidableEq, Repr, Inhabited

namespace Bytes

/-- The bytes of a text. -/
def ofText (s : String) : Bytes := ⟨s.toUTF8.data.toList⟩

instance : Coe String Bytes := ⟨ofText⟩

/-- The text that bytes are, if they are one. -/
def text? (b : Bytes) : Option String := String.fromUTF8? ⟨b.list.toArray⟩

/-- What was written as a text is read as that text. -/
@[simp]
theorem text?_ofText (s : String) : (ofText s).text? = some s := by
  unfold text? ofText
  rw [Array.toArray_toList]
  exact dif_pos s.isValidUTF8

/-! ## Replacing what is no character -/

/-- The mark that stands for what is no character. -/
def mark : Char := Char.ofNat 0xfffd

/-- A character of several bytes that has begun: its bits so far, how many bytes it lacks, and the
bounds of the next one. -/
structure Begun where
  bits : Nat
  lacking : Nat
  least : Nat
  greatest : Nat
deriving DecidableEq, Repr, Inhabited

/-- The character of several bytes that a byte begins. The bounds of the second byte keep out what
could be written with fewer bytes, surrogates, and what lies beyond the last character. -/
def begun? (b : Nat) : Option Begun :=
  if b < 0xc2 then none
  else if b < 0xe0 then some ⟨b - 0xc0, 1, 0x80, 0xbf⟩
  else if b < 0xf0 then
    some ⟨b - 0xe0, 2, if b = 0xe0 then 0xa0 else 0x80, if b = 0xed then 0x9f else 0xbf⟩
  else if b < 0xf5 then
    some ⟨b - 0xf0, 3, if b = 0xf0 then 0x90 else 0x80, if b = 0xf4 then 0x8f else 0xbf⟩
  else none

/-- Reads a byte where a character begins. -/
def begin (b : Nat) : List Char × Option Begun :=
  if b < 0x80 then ([Char.ofNat b], none)
  else
    match begun? b with
    | some c => ([], some c)
    | none => ([mark], none)

/-- Reads a byte, perhaps inside of a character. -/
def step (c? : Option Begun) (b : Nat) : List Char × Option Begun :=
  match c? with
  | none => begin b
  | some c =>
    if c.least ≤ b && b ≤ c.greatest then
      let bits := 64 * c.bits + (b - 0x80)
      if c.lacking = 1 then ([Char.ofNat bits], none) else
        ([], some ⟨bits, c.lacking - 1, 0x80, 0xbf⟩)
    else
      let (cs, c?) := begin b
      (mark :: cs, c?)

/-- Reads bytes as characters and marks. -/
def replaced (c? : Option Begun) : List UInt8 → List Char
  | [] => if c?.isSome then [mark] else []
  | b :: bs =>
    let (cs, c?) := step c? b.toNat
    cs ++ replaced c? bs

/-- The text of bytes, with marks for what is none. -/
def text (b : Bytes) : String := b.text?.getD (.ofList (replaced none b.list))

@[simp]
theorem text_ofText (s : String) : (ofText s).text = s := by simp [text]

end Bytes
end LiveSpec
