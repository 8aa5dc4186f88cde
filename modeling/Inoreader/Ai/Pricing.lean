import Inoreader.Lib.Decimal

/-!
# Prices and reservations (`reader-ai/src/pricing.rs`, `budget.rs`, `model.rs`)

USD amounts are exact decimal texts. `DecimalRate::parse` accepts more texts than `DecimalRate::cost`
writes: leading zeros and a bare point are read, never written.
-/

namespace Inoreader
open Lib

inductive AiError
  | automaticDuplicate
  | statisticsRange
  | automaticPaused
  | budget
  | automaticExcluded
  | notFound
  | conflict
  | unavailable
  | promptPending
  | missingKey
  | invalidKey
  | balance
  | rateLimit
  | provider
  | rejected
  | protocol
  | translation (reason : String)
  | quote
  | review
  | context
  | fullText
  | message
  | configuration
  | encryption
  | storage
  | cancelled
deriving DecidableEq, Repr

/-- The texts that `thiserror` gives the errors. -/
def AiError.text : AiError → String
  | .automaticDuplicate => "Автоматический дубль: термины этой статьи уже обработаны или ожидают обработки"
  | .statisticsRange => "Statistics start date must not follow the end date"
  | .automaticPaused =>
    "Automatic AI processing is paused during peak hours or until the holiday calendar is updated"
  | .budget => "Daily DeepSeek budget reached. Automatic summaries wait until the next Moscow day; " ++
    "manual requests are unavailable."
  | .automaticExcluded => "Архивная статья вне начальной AI-подборки; запустите обработку явно."
  | .notFound => "resource not found"
  | .conflict => "another operation is pending or the operation ID was reused"
  | .unavailable => "DeepSeek is not enabled for this account"
  | .promptPending => "The author-style prompt is awaiting evaluation and approval"
  | .missingKey => "Configure a DeepSeek API key in Settings"
  | .invalidKey => "The provider rejected this key"
  | .balance => "The provider account has insufficient balance"
  | .rateLimit => "The provider rate limit was reached; retry explicitly later"
  | .provider => "The provider request failed or was interrupted; it may have been charged"
  | .rejected => "The provider rejected the configured model or request; no automatic retry was made"
  | .protocol => "The provider returned an invalid or incomplete response"
  | .translation reason =>
    "Не удалось разобрать ответ DeepSeek: " ++ reason ++ ". Исходный текст сохранён; попробуйте ещё раз."
  | .quote => "A proposed verbatim quotation was absent from the article snapshot"
  | .review => "Verification could not be completed. The saved summary is unchanged; retry only when requested."
  | .context => "The complete article and conversation exceed the configured input/context limit; " ++
    "start a new conversation or adjust the limit"
  | .fullText => "The article has no available full text; the RSS excerpt will not be substituted"
  | .message => "Message must be nonempty and within the configured size limit"
  | .configuration => "AI configuration is invalid"
  | .encryption => "Credential encryption is unavailable or the stored credential is corrupt"
  | .storage => "AI storage operation failed"
  | .cancelled => "Generation was cancelled"

/-- The bound of `u128`. -/
def u128Bound : Nat := 2 ^ 128

namespace DecimalRate

def parse (value : String) : Except AiError Decimal :=
  match Decimal.ofChars value.toList with
  | some rate =>
    if 10 ^ (rate.scale + 6) < u128Bound ∧ rate.integer < u128Bound then .ok rate
    else .error .configuration
  | none => .error .configuration

/-- `checked_mul` and `checked_add` of `u128`. -/
def checked (n : Nat) : Except AiError Nat := if n < u128Bound then .ok n else .error .configuration

/-- The loop of `cost` over the parsed rates. -/
def total (scale : Nat) : Nat → List (Decimal × Nat) → Except AiError Nat
  | sum, [] => .ok sum
  | sum, (rate, tokens) :: rates => do
    let product ← checked (rate.integer * tokens)
    let power ← checked (10 ^ (scale - rate.scale - 6))
    let scaled ← checked (product * power)
    total scale (← checked (sum + scaled)) rates

def parseAll : List (String × Nat) → Except AiError (List (Decimal × Nat))
  | [] => .ok []
  | (rate, tokens) :: rates => do return ((← parse rate), tokens) :: (← parseAll rates)

/-- `format!("{}.{:0width$}", total / divisor, total % divisor, width = scale)`. -/
def cost (rates : List (String × Nat)) : Except AiError String := do
  let parsed ← parseAll rates
  let scale ← match (parsed.map fun r => r.1.scale + 6).max? with
    | some scale => Except.ok scale
    | none => .error .configuration
  let sum ← total scale 0 parsed
  let divisor ← checked (10 ^ scale)
  return String.ofList (Nat.toDigits 10 (sum / divisor) ++ '.' :: padDigits scale (sum % divisor))

end DecimalRate

inductive SpendMode
  | summary | verification | chat | translation | terms | ranking
deriving DecidableEq, Repr

/-- A decimal text with a digit other than zero. -/
def positiveDecimal (text : String) : Bool :=
  (DecimalRate.parse text).isOk && text.toList.any fun c => '1' ≤ c && c ≤ '9'

/-- `SpendReservation::new` admits nothing else. -/
structure SpendReservation where
  amount : String
  limit : String
  mode : SpendMode
  amountPositive : positiveDecimal amount = true
  limitPositive : positiveDecimal limit = true
deriving DecidableEq

def SpendReservation.new (amount limit : String) (mode : SpendMode) : Except AiError SpendReservation :=
  if h : positiveDecimal amount = true ∧ positiveDecimal limit = true then
    .ok { amount, limit, mode, amountPositive := h.1, limitPositive := h.2 }
  else .error .configuration

/-- The cast `$n::numeric` of a text that `DecimalRate::parse` accepted. -/
def numeric (text : String) : Decimal := (Decimal.ofChars text.toList).getD ⟨0, 0⟩

/-- `amount` is spelled as PostgreSQL spells its value: no leading zero, no bare point. -/
def Canonical (amount : String) : Prop := (numeric amount).text = amount

instance (amount : String) : Decidable (Canonical amount) := inferInstanceAs (Decidable (_ = _))

theorem numeric_text (d : Decimal) : numeric d.text = d := by
  simp [numeric, Decimal.text, Decimal.ofChars_chars]

theorem canonical_text (d : Decimal) : Canonical d.text := by
  rw [Canonical, numeric_text]

/-- Every amount the application computes is canonical: it comes from `cost`. -/
theorem DecimalRate.cost_canonical {rates : List (String × Nat)} {amount : String} (h : cost rates = .ok amount) :
    Canonical amount := by
  simp only [cost, bind, Except.bind, pure, Except.pure] at h
  cases hparsed : parseAll rates with
  | error e =>
    rw [hparsed] at h
    cases h
  | ok parsed =>
    rw [hparsed] at h
    cases hscale : (parsed.map fun r => r.1.scale + 6).max? with
    | none =>
      simp only [hscale] at h
      cases h
    | some scale =>
      simp only [hscale] at h
      have hpos : scale ≠ 0 := by
        obtain ⟨r, -, hr⟩ := List.mem_map.1 (List.max?_mem hscale)
        omega
      cases hsum : total scale 0 parsed with
      | error e =>
        simp only [hsum] at h
        cases h
      | ok sum =>
        simp only [hsum] at h
        by_cases hdiv : 10 ^ scale < u128Bound
        · have htext : amount = Decimal.text ⟨sum, scale⟩ := by
            simp only [checked, if_pos hdiv, Except.ok.injEq] at h
            rw [← h, Decimal.text, Decimal.chars, if_neg hpos]
          rw [htext]
          exact canonical_text _
        · simp only [checked, if_neg hdiv] at h
          cases h

end Inoreader
