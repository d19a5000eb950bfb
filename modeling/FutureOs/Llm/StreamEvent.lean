import FutureOs.Lib.Json

/-!
# What a model streams

The events every provider adapter turns its frames into (`llm/schema.rs`), and
`parse_json_arguments`.  A usage event keeps the usage object as the provider sent it; the
adapters read their counters from it.  A parameter stands for `serde_json::from_str`.
-/

namespace FutureOs
namespace Llm

inductive FinishReason
  | stop
  | toolCalls
  | length
  | contentFilter
  | refusal
  | cancelled
  | paused
  | incomplete
  | error
  | unknown (reason : String)
deriving DecidableEq

inductive ModelStreamEvent
  | textStart (id : String)
  | textDelta (id text : String)
  | textEnd (id : String)
  | reasoningStart (id : String)
  | reasoningDelta (id text : String)
  | reasoningEnd (id : String) (providerMetadata : Json)
  | toolInputStart (index : Nat) (id name : String) (arguments : Option Json)
      (providerMetadata : Json)
  | toolInputDelta (index : Nat) (id delta : String) (snapshot : Bool)
  | toolInputEnd (index : Nat) (id name : String) (arguments : Json)
      (providerMetadata : Json)
  | usage (value : Json)
  | finish (reason : FinishReason) (usage : Option Json)
  | error (message : String)
deriving DecidableEq

/-- `parse_json_arguments`: a text that does not parse stays a string. -/
def parseJsonArguments (fromStr : String → Option Json) : Json → Json
  | .str text => (fromStr text).getD (.str text)
  | other => other

/-- A field of an object that is a string, as `get(key).and_then(as_str)` reads it. -/
def textField (v : Json) (key : String) : Option String :=
  (v.get? key).bind Json.asStr?

/-- An index, 0 where the field is no such number. -/
def indexField (v : Json) (key : String) : Nat :=
  ((v.get? key).bind Json.asU64?).getD 0

/-- `filter(|text| !text.is_empty())`. -/
def nonEmpty (text : Option String) : Option String :=
  text.filter (· ≠ "")

theorem nonEmpty_some (text : String) :
    nonEmpty (some text) = if text = "" then none else some text := by
  by_cases h : text = "" <;> simp [nonEmpty, Option.filter, h]

end Llm
end FutureOs
