/-
Positions in a text.

Offsets count the bytes of the UTF-8 encoding. `lineCol` turns an offset into a
line and a column, both counted from one, the column in characters; `lineTexts`
lists the lines themselves; `slice?` cuts out the characters between two
offsets, when both fall between characters.
-/

namespace Sexpr.Text

/-- The number of bytes that a list of characters takes. -/
def byteLength : List Char → Nat
  | [] => 0
  | c :: cs => c.utf8Size + byteLength cs

@[simp] theorem byteLength_nil : byteLength [] = 0 := rfl

@[simp] theorem byteLength_cons (c : Char) (cs : List Char) :
    byteLength (c :: cs) = c.utf8Size + byteLength cs := rfl

@[simp] theorem byteLength_append (as bs : List Char) :
    byteLength (as ++ bs) = byteLength as + byteLength bs := by
  induction as with
  | nil => simp
  | cons a as ih => simp [ih, Nat.add_assoc]

/-- The number of characters that start within the first `bytes` bytes. -/
def startsWithin : List Char → (bytes : Nat) → Nat
  | [], _ => 0
  | c :: cs, bytes => if bytes = 0 then 0 else startsWithin cs (bytes - c.utf8Size) + 1

/-- Goes over lines, the first of which has the given number, up to the one that an
offset falls in; a line feed belongs to the line that it ends. Gives the number of the
line and the column, or `none` when the offset lies past the last line. -/
def locate? : (lines : List (List Char)) → (bytes number : Nat) → Option (Nat × Nat)
  | [], _, _ => none
  | line :: lines, bytes, number =>
    if bytes < byteLength line + 1 then some (number, startsWithin line bytes + 1)
    else locate? lines (bytes - (byteLength line + 1)) (number + 1)

/-- Line and column of a byte offset. An offset past the end stands for the end, one
inside a character for the position behind it. -/
def lineCol (text : String) (offset : Nat) : Nat × Nat :=
  let lines := text.toList.splitOn '\n'
  (locate? lines (min offset text.utf8ByteSize) 1).getD (lines.length, 1)

/-- The lines of a text without their terminators: a line feed, or a carriage
return with a line feed. The piece behind the last terminator counts as a line,
also when it is empty. -/
def lineTexts : List Char → List (List Char)
  | [] => [[]]
  | '\n' :: cs => [] :: lineTexts cs
  | '\r' :: '\n' :: cs => [] :: lineTexts cs
  | c :: cs =>
    match lineTexts cs with
    | [] => [[c]]
    | line :: lines => (c :: line) :: lines

/-- What follows the first `bytes` bytes, or `none` when that cuts a character
or runs past the end. -/
def dropBytes? : List Char → (bytes : Nat) → Option (List Char)
  | cs, 0 => some cs
  | [], _ + 1 => none
  | c :: cs, bytes + 1 =>
    if c.utf8Size ≤ bytes + 1 then dropBytes? cs (bytes + 1 - c.utf8Size) else none
termination_by cs => cs

/-- The first `bytes` bytes, or `none` when that cuts a character or runs past
the end. -/
def takeBytes? : List Char → (bytes : Nat) → Option (List Char)
  | _, 0 => some []
  | [], _ + 1 => none
  | c :: cs, bytes + 1 =>
    if c.utf8Size ≤ bytes + 1 then (takeBytes? cs (bytes + 1 - c.utf8Size)).map (c :: ·) else none
termination_by cs => cs

/-- The characters between two offsets, when neither cuts a character. -/
def slice? (text : String) (start stop : Nat) : Option (List Char) :=
  (dropBytes? text.toList start).bind fun cs => takeBytes? cs (stop - start)

end Sexpr.Text
