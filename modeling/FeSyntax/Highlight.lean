import FeSyntax.Cursor
import FeSyntax.Outline
import Std.Data.HashMap

/-
  This file defines syntax highlighting.  Every token gets a
  capture.  A word that names something in the syntax tree
  gets the capture of its role; all other tokens, and all
  tokens of a text that does not parse, get the capture of
  their kind.

  Key definitions include:
    * `Capture`
    * `Capture.name`
    * `TokenKind.capture?`
    * `Node.roles`
    * `SourceFile.roles`
    * `RoleTable`
    * `Highlight`
    * `RoleTable.highlight`
    * `highlight`
-/

namespace FeSyntax

------------------------------------------------------------
-- Captures
------------------------------------------------------------

/- What a token is highlighted as. -/
inductive Capture where
  | keyword
  | typeBuiltin
  | boolean
  | number
  | string
  | comment
  | bracket
  | delimiter
  | operator
  | function
  | type
  | module
  | parameter
  | property
  | constant
  | anyName
deriving DecidableEq, Repr

namespace Capture

/- The name of a capture. -/
def name : Capture → String
  | keyword => "keyword"
  | typeBuiltin => "type.builtin"
  | boolean => "boolean"
  | number => "number"
  | string => "string"
  | comment => "comment"
  | bracket => "punctuation.bracket"
  | delimiter => "punctuation.delimiter"
  | operator => "operator"
  | function => "function"
  | type => "type"
  | module => "module"
  | parameter => "variable.parameter"
  | property => "property"
  | constant => "constant"
  | anyName => "variable"

end Capture

------------------------------------------------------------
-- Captures Of Kinds
------------------------------------------------------------

namespace Punct

/- The capture of a punctuation mark. -/
def capture
    (p : Punct) : Capture :=
  match p.tokenClass with
  | .bracket => .bracket
  | .delimiter => .delimiter
  | _ => .operator

end Punct

namespace TokenKind

/-
  The capture that a token has by its kind alone.  An error
  and the end of the text have none.
-/
def capture? : TokenKind → Option Capture
  | keyword _ => some .keyword
  | primitive _ => some .typeBuiltin
  | bool _ => some .boolean
  | identifier _ => some .anyName
  | number _ _ => some .number
  | string _ => some .string
  | punct p => some p.capture
  | comment => some .comment
  | error _ => none
  | endOfText => none

end TokenKind

------------------------------------------------------------
-- Roles
------------------------------------------------------------

/- Names with the captures of their roles. -/
abbrev Roles : Type :=
  List (Identifier × Capture)

namespace Identifier

/- Names that all have one role. -/
def rolesAs
    (capture : Capture)
    (names : List Identifier) : Roles :=
  names.map (fun i => (i, capture))

end Identifier

namespace Definition

/- The roles of the names that a definition introduces. -/
def roles : Definition → Roles
  | module m => [(m.name, .module)]
  | function _ => []
  | struct s => Identifier.rolesAs .type (s.name :: s.typeParams)
  | constant c => [(c.name, .constant)]
  | typeAlias a =>
      Identifier.rolesAs .type (a.name :: a.typeParams)
  | trait t =>
      Identifier.rolesAs .type (t.name :: t.typeParams)
  | impl _ => []

end Definition

namespace Node

/-
  The roles that a node gives to its names.  The segments of
  a path are types where the path is one.
-/
def roles : Node → Roles
  | definition d => d.roles
  | function f =>
      (f.name, .function) ::
        Identifier.rolesAs .type f.typeParams
  | param p => [(p.name, .parameter)]
  | field f => [(f.name, .property)]
  | ty (.path p) => Identifier.rolesAs .type p.segments
  | _ => []

end Node

namespace SourceFile

/- The roles that the nodes of a file give. -/
def roles
    (f : SourceFile) : Roles :=
  f.nodes.flatMap Node.roles

/- The names of a file, as variables. -/
def plainRoles
    (f : SourceFile) : Roles :=
  Identifier.rolesAs .anyName
    (f.nodes.filterMap Node.identifier?)

end SourceFile

/- Captures of words, by the offsets that they start at. -/
abbrev RoleTable : Type :=
  Std.HashMap Nat Capture

namespace RoleTable

/- Put roles into a table; they replace those before. -/
def insertRoles
    (table : RoleTable)
    (roles : Roles) : RoleTable :=
  roles.foldl
    (fun t r => t.insert r.1.span.start r.2) table

/-
  The table of a file.  A name that no node gives a role is
  a variable.
-/
def ofFile
    (f : SourceFile) : RoleTable :=
  insertRoles (insertRoles ∅ f.plainRoles) f.roles

/- The table of a text, empty if the text does not parse. -/
def ofString
    (source : String) : RoleTable :=
  match SourceFile.parse source defaultLimit with
  | .ok f => ofFile f
  | .error _ => ∅

end RoleTable

------------------------------------------------------------
-- Highlighting
------------------------------------------------------------

/- A token with its capture. -/
structure Highlight where
  token : Token
  capture : Capture
deriving DecidableEq, Repr

namespace RoleTable

/- The capture of a token that is neither error nor end. -/
def captureOf
    (table : RoleTable)
    (token : Token)
    (byKind : Capture) : Capture :=
  match token.kind.word? with
  | some _ => (table.get? token.span.start).getD byKind
  | none => byKind

/-
  Highlight the tokens up to the end of the text.  The first
  token that is an error is the error of them all.
-/
def highlight
    (table : RoleTable) :
    List Token → Except SyntaxError (List Highlight)
  | [] => .ok []
  | t :: ts =>
      match t.kind with
      | .error cause =>
          .error
            (.invalidToken cause t.span.line t.span.column)
      | kind =>
          match kind.capture? with
          | none => highlight table ts
          | some byKind =>
              (highlight table ts).map
                (⟨t, captureOf table t byKind⟩ :: ·)

end RoleTable

/- Highlight a source text. -/
def highlight
    (source : String) : Except SyntaxError (List Highlight) :=
  (RoleTable.ofString source).highlight (tokenize source)

end FeSyntax
