/-!
# Markup

Pages are trees of elements.  In their written form the characters that markup uses itself are
replaced, in texts and attributes alike.
-/

namespace Credence

/-- A part of a page. -/
inductive Markup where
  | text (s : String)
  /-- An element with what it holds. -/
  | element (tag : String) (attributes : List (String × String)) (children : List Markup)
  /-- An element that holds nothing and has no end. -/
  | void (tag : String) (attributes : List (String × String))
deriving Inhabited

namespace Markup

def escape (c : Char) : List Char :=
  if c = '&' then "&amp;".toList
  else if c = '<' then "&lt;".toList
  else if c = '>' then "&gt;".toList
  else if c = '\x22' then "&quot;".toList
  else [c]

def escaped (s : String) : String := String.ofList (s.toList.flatMap escape)

def attributesText (attributes : List (String × String)) : String :=
  String.join (attributes.map fun a => " " ++ a.1 ++ "=\x22" ++ escaped a.2 ++ "\x22")

mutual

def toText : Markup → String
  | text s => escaped s
  | element tag attributes children =>
    "<" ++ tag ++ attributesText attributes ++ ">" ++ listText children ++ "</" ++ tag ++ ">"
  | void tag attributes => "<" ++ tag ++ attributesText attributes ++ ">"

def listText : List Markup → String
  | [] => ""
  | m :: rest => toText m ++ listText rest

end

def plain (tag : String) (children : List Markup) : Markup := element tag [] children

def classed (tag name : String) (children : List Markup) : Markup :=
  element tag [("class", name)] children

def number (n : Nat) : Markup := text (toString n)

end Markup

end Credence
