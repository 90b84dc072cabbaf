import GoGraft.Source.Place
import GoGraft.Text.Utf8

/-! The ways in which a file cannot be grafted. -/

namespace GoGraft

inductive GraftError where
  | notText (fault : Utf8.Fault)
  | invalidSource
  /-- Two edits of one place; the spans are in bytes. -/
  | overlap (first second : Span)
  | invalidOutput
  deriving DecidableEq, Repr

namespace GraftError

def showSpan (span : Span) : Text :=
  Text.ofNat span.start ++ "..".toList ++ Text.ofNat span.stop

def invalidSourceMessage : Text :=
  "Source Parse Error: syntax error".toList

def message : GraftError → Text
  | notText fault =>
    "Source Parse Error: input is not valid UTF-8 (".toList ++ fault.message ++ ")".toList
  | invalidSource => invalidSourceMessage
  | overlap first second =>
    "Output Serialize Error: overlapping edits at bytes ".toList ++ showSpan first ++
      " and ".toList ++ showSpan second
  | invalidOutput => "Output Serialize Error: ".toList ++ invalidSourceMessage

end GraftError

end GoGraft
