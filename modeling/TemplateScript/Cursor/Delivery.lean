import TemplateScript.Cursor.Scan

/-!
# Delivery of errors

Whoever reads a token stream learns of its errors in one of two ways: by asking for those that have
come up since the last time, or by listening, so that each is heard the moment it comes up and
nothing is left to ask for.
-/

namespace TemplateScript

/-- A token stream and how its errors are delivered. -/
structure Delivery where
  cursor : Cursor
  /-- Somebody listens for errors. -/
  listened : Bool := false
deriving Inhabited

namespace Delivery

/-- What a listener has heard. -/
def heard (d : Delivery) : List ScanError := if d.listened then d.cursor.errors else []

/-- The errors since the last time they were asked for, unless somebody listens. -/
def take (d : Delivery) : List ScanError × Delivery :=
  if d.listened then ([], d)
  else (d.cursor.newErrors, { d with cursor := d.cursor.takeErrors })

end Delivery

end TemplateScript
