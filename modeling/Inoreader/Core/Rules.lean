import Inoreader.Core.Article
import Inoreader.Lib.Text

/-! # Rules (`reader-core/src/rules.rs`) -/

namespace Inoreader
open Lib

inductive RuleField
  | title | text | both
deriving DecidableEq, Repr

inductive RuleAction
  | markRead
deriving DecidableEq, Repr

structure Rule where
  id : RuleId
  subscriptionId : SubscriptionId
  version : Nat
  enabled : Bool
  field : RuleField
  needles : List String
  action : RuleAction
deriving DecidableEq, Repr

/-- `str::contains`. -/
def containsText (haystack needle : String) : Bool := decide (needle.toList <:+: haystack.toList)

namespace Rule

/-- A rule has exactly one phrase, non-blank and without surrounding white space. -/
def valid (r : Rule) : Bool :=
  match r.needles with
  | [needle] => !isBlank needle && isTrimmed needle
  | _ => false

/-- `Rule::matches`; `lower` is `str::to_lowercase`. -/
def isMatch (lower : String → String) (r : Rule) (title : String) (text : Option String) : Bool :=
  r.enabled && r.needles.any fun n =>
    match r.field with
    | .title => containsText (lower title) (lower n)
    | .text => containsText (lower (text.getD "")) (lower n)
    | .both => containsText (lower title) (lower n) || containsText (lower (text.getD "")) (lower n)

/-- `Rule::apply`. -/
def apply (r : Rule) (s : ArticleState) : ArticleState :=
  match r.action with
  | .markRead => if s.protectUnread then s else { s with read := true }

end Rule

structure PendingRuleEvaluation where
  ruleId : RuleId
  ruleVersion : Nat
  subscriptionId : SubscriptionId
deriving DecidableEq, Repr

def PendingRuleEvaluation.stillValidFor (e : PendingRuleEvaluation) (r : Rule) : Bool :=
  r.enabled && e.ruleId == r.id && e.ruleVersion == r.version && e.subscriptionId == r.subscriptionId

end Inoreader
