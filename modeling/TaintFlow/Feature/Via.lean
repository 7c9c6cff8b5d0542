import TaintFlow.Name

/-!
# Features observed at call sites

The type of a register and the constant value of an argument become features when a frame asks for
them. Each such feature has a fixed word in front; what was not observed is `unknown`.
-/
namespace TaintFlow

def viaTypeWord : String := "via-type:"

def viaValueWord : String := "via-value:"

def viaTypeFeature (observed : Option DexType) : Feature :=
  ⟨viaTypeWord ++ (observed.map Name.text).getD "unknown"⟩

def viaValueFeature (observed : Option String) : Feature :=
  ⟨viaValueWord ++ observed.getD "unknown"⟩

/-- The type name that a feature made by `viaTypeFeature` carries. -/
def viaTypeName? (f : Feature) : Option String :=
  if viaTypeWord.toList.isPrefixOf f.text.toList then
    some (String.ofList (f.text.toList.drop viaTypeWord.toList.length))
  else none

end TaintFlow
