/-!
Letter case of names. Mnemonics, registers and conditions are read without regard to the case of
ASCII letters; no other character has a case here.
-/
namespace Z80Toolchain.Text

def lower (text : String) : String :=
  String.ofList (text.toList.map Char.toLower)

@[simp] theorem to_list_lower (text : String) :
    (lower text).toList = text.toList.map Char.toLower := by
  simp [lower]

def SameLetters (left right : String) : Prop :=
  lower left = lower right

end Z80Toolchain.Text
