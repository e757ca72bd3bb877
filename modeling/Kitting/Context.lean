import Kitting.Condition
import Kitting.Text.Search
import Kitting.Token

namespace Kitting

open Text

/-- `tokens` is read as a set. -/
structure Context where
  tokens : List String
  raw : String

namespace Context

def separator : String := " | "

def entries (texts : List String) : List String := (texts.map upper).filter (!isVacant ·)

def ofTexts (texts : List String) : Context where
  tokens := ((entries texts).flatMap fun t => t :: (Token.split t).filter Token.isLong).eraseDups
  raw := String.join ((entries texts).map (separator ++ ·))

def finds (ctx : Context) (term : String) : Bool :=
  let target := upper term
  !target.isEmpty && (ctx.tokens.contains target || contains (upper ctx.raw) target)

def findsLoosely (ctx : Context) (term : String) : Bool :=
  let target := upper term
  !target.isEmpty && (ctx.finds term
    || ctx.tokens.any fun t => !t.isEmpty && (contains target t || contains t target))

end Context

def Condition.holds (c : Condition) (ctx : Context) : Bool :=
  !c.isEmpty && c.includes.all ctx.findsLoosely && !c.excludes.any ctx.finds
    && c.groups.all (·.any ctx.findsLoosely)

end Kitting
