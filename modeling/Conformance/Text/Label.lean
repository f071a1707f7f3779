namespace Conformance.Text

/-- A name in small letters with underscores, as one word in which every part starts with a
capital. -/
def label (name : String) : String :=
  String.join ((name.splitOn "_").map String.capitalize)

end Conformance.Text
