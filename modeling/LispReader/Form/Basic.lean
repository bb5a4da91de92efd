import LispReader.Alphabet
import LispReader.Span

/-!
# Forms

A form is what a reader makes of a piece of source: an atom, a string or a list of
forms, each with the span it was read from. A datum is a form without its spans.
Contents are unrestricted here: an atom may be empty or hold reserved characters,
and spans need not be nested.
-/

namespace LispReader

/-- What a form says, without the places it was read from. -/
inductive Datum where
  | atom (content : Text)
  | string (content : Text)
  | list (items : List Datum)
  deriving Repr, Inhabited

/-- A form together with the spans of all its parts. -/
inductive Form where
  | atom (content : Text) (span : Span)
  | string (content : Text) (span : Span)
  | list (items : List Form) (span : Span)
  deriving Repr, Inhabited

namespace Datum

/-- A character of an atom, behind an escape if it is reserved. -/
def atomChar (c : Char) : Text := if Alphabet.isReserved c then [Alphabet.escape, c] else [c]

/-- A character of a string, as an escape if it has a letter. -/
def stringChar (c : Char) : Text :=
  match Alphabet.letter? c with
  | some letter => [Alphabet.escape, letter]
  | none => [c]

mutual
/-- The written form of a datum in front of a text. -/
def writeBefore : Datum → Text → Text
  | atom content, t => content.flatMap atomChar ++ t
  | string content, t =>
    Alphabet.quotation :: (content.flatMap stringChar ++ Alphabet.quotation :: t)
  | list items, t => Alphabet.openParen :: writeItemsBefore items (Alphabet.closeParen :: t)

/-- The written forms of the items of a list, one space between two, in front of a text. -/
def writeItemsBefore : List Datum → Text → Text
  | [], t => t
  | [d], t => writeBefore d t
  | d :: e :: ds, t => writeBefore d (' ' :: writeItemsBefore (e :: ds) t)
end

/-- The written form of a datum. -/
def render (d : Datum) : Text := d.writeBefore []

mutual
theorem writeBefore_append (d : Datum) (t u : Text) :
    writeBefore d (t ++ u) = writeBefore d t ++ u :=
  match d with
  | atom content => by simp [writeBefore]
  | string content => by simp [writeBefore]
  | list items => by
    rw [writeBefore, writeBefore, ← List.cons_append, writeItemsBefore_append]
    rfl

theorem writeItemsBefore_append (ds : List Datum) (t u : Text) :
    writeItemsBefore ds (t ++ u) = writeItemsBefore ds t ++ u :=
  match ds with
  | [] => rfl
  | [d] => writeBefore_append d t u
  | d :: e :: ds => by
    rw [writeItemsBefore, writeItemsBefore, writeItemsBefore_append (e :: ds) t u,
      ← List.cons_append, writeBefore_append]
end

theorem writeBefore_eq (d : Datum) (t : Text) : d.writeBefore t = d.render ++ t := by
  rw [render, ← writeBefore_append, List.nil_append]

end Datum

namespace Form

/-- Where a form was read from. -/
def span : Form → Span
  | atom _ s => s
  | string _ s => s
  | list _ s => s

mutual
/-- The form without its spans. -/
def datum : Form → Datum
  | atom content _ => .atom content
  | string content _ => .string content
  | list items _ => .list (data items)

/-- The data of several forms. -/
def data : List Form → List Datum
  | [] => []
  | f :: fs => datum f :: data fs
end

theorem data_eq_map (fs : List Form) : data fs = fs.map datum := by
  induction fs with
  | nil => rfl
  | cons f fs ih => rw [data, ih, List.map_cons]

mutual
/-- Whether two forms have the same content, wherever they were read from. -/
def sameContent : Form → Form → Bool
  | atom a _, atom b _ => a == b
  | string a _, string b _ => a == b
  | list as _, list bs _ => sameContents as bs
  | _, _ => false

/-- Whether two lists of forms have the same contents, item by item. -/
def sameContents : List Form → List Form → Bool
  | [], [] => true
  | f :: fs, g :: gs => sameContent f g && sameContents fs gs
  | _, _ => false
end

mutual
/-- How many lists lie around the innermost place of a form. -/
def depth : Form → Nat
  | atom _ _ => 0
  | string _ _ => 0
  | list items _ => depths items + 1

/-- The greatest depth of several forms. -/
def depths : List Form → Nat
  | [] => 0
  | f :: fs => max (depth f) (depths fs)
end

mutual
/-- A form and all forms inside it in the order of their beginnings, each with the
number of lists around it. -/
def preorder (level : Nat) : Form → List (Nat × Form)
  | atom content s => [(level, atom content s)]
  | string content s => [(level, string content s)]
  | list items s => (level, list items s) :: preorders (level + 1) items

/-- Several forms and all forms inside them. -/
def preorders (level : Nat) : List Form → List (Nat × Form)
  | [] => []
  | f :: fs => preorder level f ++ preorders level fs
end

/-- The written form, which does not depend on the spans. -/
def render (f : Form) : Text := f.datum.render

mutual
/-- Forms are compared with all their spans. -/
def decEq : (f g : Form) → Decidable (f = g)
  | atom a s, atom b t => decidable_of_iff (a = b ∧ s = t) (by simp)
  | string a s, string b t => decidable_of_iff (a = b ∧ s = t) (by simp)
  | list as s, list bs t =>
    match decEqs as bs with
    | isTrue h => decidable_of_iff (s = t) (by simp [h])
    | isFalse h => isFalse (by simp [h])
  | atom _ _, string _ _ => isFalse nofun
  | atom _ _, list _ _ => isFalse nofun
  | string _ _, atom _ _ => isFalse nofun
  | string _ _, list _ _ => isFalse nofun
  | list _ _, atom _ _ => isFalse nofun
  | list _ _, string _ _ => isFalse nofun

/-- Lists of forms are compared item by item. -/
def decEqs : (fs gs : List Form) → Decidable (fs = gs)
  | [], [] => isTrue rfl
  | [], _ :: _ => isFalse nofun
  | _ :: _, [] => isFalse nofun
  | f :: fs, g :: gs =>
    match decEq f g with
    | isTrue h =>
      match decEqs fs gs with
      | isTrue h' => isTrue (by rw [h, h'])
      | isFalse h' => isFalse (by simp [h'])
    | isFalse h => isFalse (by simp [h])
end

instance : DecidableEq Form := decEq

mutual
/-- Forms have the same content when they differ in their spans only. -/
theorem sameContent_iff (f g : Form) : sameContent f g = true ↔ f.datum = g.datum :=
  match f, g with
  | atom a _, atom b _ => by simp [sameContent, datum]
  | string a _, string b _ => by simp [sameContent, datum]
  | list as _, list bs _ => by simp [sameContent, datum, sameContents_iff as bs]
  | atom _ _, string _ _ => by simp [sameContent, datum]
  | atom _ _, list _ _ => by simp [sameContent, datum]
  | string _ _, atom _ _ => by simp [sameContent, datum]
  | string _ _, list _ _ => by simp [sameContent, datum]
  | list _ _, atom _ _ => by simp [sameContent, datum]
  | list _ _, string _ _ => by simp [sameContent, datum]

theorem sameContents_iff (fs gs : List Form) : sameContents fs gs = true ↔ data fs = data gs :=
  match fs, gs with
  | [], [] => by simp [sameContents, data]
  | [], _ :: _ => by simp [sameContents, data]
  | _ :: _, [] => by simp [sameContents, data]
  | f :: fs, g :: gs => by
    simp [sameContents, data, sameContent_iff f g, sameContents_iff fs gs]
end

end Form

end LispReader
