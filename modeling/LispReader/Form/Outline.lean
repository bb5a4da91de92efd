import LispReader.Form.Basic
import LispReader.Source
import LispReader.Text.Quoted

/-!
# Outlines

An outline shows forms for inspection: one line per form, nested forms included,
indented by two spaces for each list around it. A line names the kind of the form
and its span, then the content and the text at that span, both quoted, or the
number of items of a list. A span that does not fit the source shows as `?`.
-/

namespace LispReader

namespace Form

/-- The outline line of a form without indentation and line end. -/
def headline (source : Source) : Form → Text
  | atom content s => leaf "atom " content s
  | string content s => leaf "string " content s
  | list items s => s!"list {s.render} ({items.length} items)".toList
where
  leaf (kind : String) (content : Text) (s : Span) : Text :=
    kind.toList ++ s.render.toList ++ ' ' :: Text.quoted content ++
      ' ' :: Text.quoted ((source.slice? s).getD ['?'])

/-- The outline line of a form at a nesting level. -/
def outlineLine (source : Source) (level : Nat) (f : Form) : Text :=
  List.replicate (2 * level) ' ' ++ f.headline source ++ ['\n']

/-- The outline of a form. -/
def outline (f : Form) (source : Source) : Text :=
  (f.preorder 0).flatMap fun line => outlineLine source line.1 line.2

/-- The outlines of several forms, one below the other. -/
def outlines (fs : List Form) (source : Source) : Text :=
  fs.flatMap fun f => f.outline source

theorem preorders_eq_flatMap (level : Nat) (fs : List Form) :
    preorders level fs = fs.flatMap (preorder level) := by
  induction fs with
  | nil => rfl
  | cons f fs ih => rw [preorders, ih, List.flatMap_cons]

end Form

end LispReader
