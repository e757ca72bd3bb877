import Kitting.Condition
import Kitting.Formula.Bracket
import Kitting.Formula.Split

/-!
The two ways to write the condition of a part.

In a catalog `(A/B)` and `(A OR B)` are groups, `(A)` is one term, `[X Y]` excludes each word, and every
other word is a term. In a laboratory sheet only `OR` separates, `[X OR Y]` excludes whole phrases, and
the text outside of brackets counts only if there is no term and no group: then all of it is one term.
Brackets are taken out first, then parentheses; fragments of unmatched ones are dropped.
-/

namespace Kitting.Formula

open Text

inductive Dialect
  | catalog
  | laboratory
  deriving DecidableEq, Repr

def Dialect.ofName? : String → Option Dialect
  | "catalog" => some .catalog
  | "lab" => some .laboratory
  | _ => none

inductive Clause
  | term (t : String)
  | group (ts : List String)
  deriving DecidableEq, Repr

def Clause.term? : Clause → Option String
  | term t => some t
  | group _ => none

def Clause.group? : Clause → Option (List String)
  | term _ => none
  | group ts => some ts

def Clause.ofGroup (ts : List String) : Option Clause := if ts.isEmpty then none else some (.group ts)

def catalogExcludes (inner : List Char) : List String :=
  (cleanTerms (wordChars inner)).filter (· ≠ "OR")

def catalogClause (inner : List Char) : Option Clause :=
  let content := trimChars inner
  if content.contains '/' || (wordChars content).any isOrWord then
    Clause.ofGroup (cleanTerms (splitSlashOr content))
  else if content.isEmpty then none
  else some (.term (.ofList (upperChars content)))

def ofCatalogChars (text : List Char) : Condition :=
  let working := dropSpans '[' ']' text
  let clauses := (spans '(' ')' working).filterMap catalogClause
  let outside := blankSpans '(' ')' working
  let loose := ((wordChars outside).filter (!·.any isBracket)).map (.ofList <| upperChars ·)
  { includes := clauses.filterMap Clause.term? ++ loose
    excludes := (spans '[' ']' text).flatMap catalogExcludes
    groups := clauses.filterMap Clause.group?
    raw := .ofList text }

def laboratoryExcludes (inner : List Char) : List String := cleanTerms (splitOr (trimChars inner))

def laboratoryClause (inner : List Char) : Option Clause :=
  let content := upperChars (trimChars inner)
  if content.isEmpty then none
  else match splitOr content with
    | [_] => some (.term (.ofList content))
    | fields => Clause.ofGroup (cleanTerms fields)

/-- The text outside of brackets as a single term, unless it is short or holds a stray bracket. -/
def wholeTerm (outside : List Char) : List String :=
  let phrase := upperChars ([' '].intercalate (wordChars outside))
  if phrase.any isBracket then [] else if 2 < phrase.length then [.ofList phrase] else []

def ofLaboratoryChars (text : List Char) : Condition :=
  let working := dropSpans '[' ']' text
  let clauses := (spans '(' ')' working).filterMap laboratoryClause
  let outside := blankSpans '(' ')' working
  { includes := if clauses.isEmpty then wholeTerm outside else clauses.filterMap Clause.term?
    excludes := (spans '[' ']' text).flatMap laboratoryExcludes
    groups := clauses.filterMap Clause.group?
    raw := .ofList text }

def ofChars : Dialect → List Char → Condition
  | .catalog => ofCatalogChars
  | .laboratory => ofLaboratoryChars

def parse (dialect : Dialect) (formula : String) : Condition := ofChars dialect formula.toList

def parseValue (dialect : Dialect) (v : Json) : Condition :=
  parse dialect (if v.isVacant then "" else v.text)

end Kitting.Formula
