import Declutter.Syntax.Tree
import Declutter.Text.Blank

/-!
# What comments say

A comment may explain the code, steer a tool, or mark a place as exempt from analysis.  Only the
first sort is worth keeping when the statement it stands beside is removed.

## Main definitions

* `Comment.body` — a comment without its delimiters.
* `Comment.isDirective` — whether a comment steers a tool.
* `Comment.explains` — whether a comment explains the code.
-/

namespace Declutter.Comment

/-- A comment without its delimiters; an unclosed block comment lacks only the opening one. -/
def bodyOf (text : String) : String :=
  let chars := text.toList
  if Text.beginsWith text "//" then String.ofList (chars.drop 2)
  else if Text.beginsWith text "/*" then
    if Text.endsWith text "*/" then String.ofList ((chars.take (chars.length - 2)).drop 2)
    else String.ofList (chars.drop 2)
  else text

/-- How the directives of various tools begin. -/
def directives : List String :=
  ["eslint-", "eslint ", "@ts-", "prettier-ignore", "istanbul ", "c8 ", "jshint ", "jscs:",
    "global ", "tslint:", "@flow"]

/-- Whether the body of a comment is a directive: one of `directives`, or the reference to a
source map. -/
def isDirective (body : String) : Bool :=
  let start := Text.stripStart body
  directives.any (Text.beginsWith start) ||
    (Text.beginsWith start "#" &&
      Text.beginsWith (Text.stripStart (String.ofList (start.toList.drop 1))) "sourceMappingURL")

/-- Whether two letters stand side by side in a list. -/
def hasWord : List Char → Bool
  | a :: b :: rest => (a.isAlpha && b.isAlpha) || hasWord (b :: rest)
  | _ => false

/-- Whether a comment explains the code: it holds a word, is no directive, and does not hold the
`marker` of exempt places. -/
def explains (marker text : String) : Bool :=
  let body := bodyOf text
  !(marker != "" && Text.contains text marker) && !isDirective body && hasWord body.toList

end Declutter.Comment
