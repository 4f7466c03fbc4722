import HiveClaw.RustStd

/-!
# The sensitive word filter

`SensitiveFilter::check` of `crates/hiveweb/src/services/sensitive_filter.rs`.
The Aho-Corasick automaton and the compiled regular expressions are third-party
code and enter as the predicates they compute.
-/

namespace HiveClaw.Runtime

-- `SensitivePattern`
inductive SensitivePattern where
  | exact (id : Int) (word : String)
  | regex (id : Int) (word : String) (isMatch : String → Bool)

/-- `SensitiveFilter`; `ac` is `find(text).is_some()` of the automaton over the
exact words, if there is one. -/
structure SensitiveFilter where
  patterns : List SensitivePattern
  ac : Option (String → Bool)

namespace SensitiveFilter

-- the exact pattern that is reported for a hit of the automaton
def exactHit (lower : String → String) (text : String) : SensitivePattern → Bool
  | .exact _ word => RustStr.contains (lower text) (lower word)
  | .regex _ _ _ => false

def regexHit (text : String) : SensitivePattern → Bool
  | .exact _ _ => false
  | .regex _ _ isMatch => isMatch text

-- `check`
def check (f : SensitiveFilter) (lower : String → String) (text : String) :
    Option SensitivePattern :=
  if text = "" then none
  else
    let exact := if f.ac.any fun found => found text then f.patterns.find? (exactHit lower text)
      else none
    exact.or (f.patterns.find? (regexHit text))

end SensitiveFilter

end HiveClaw.Runtime
