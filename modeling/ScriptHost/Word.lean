/-! The limits of machine words. -/

namespace ScriptHost

def wordLimit : Nat := 0x10000000000000000

/-- Signed words are below it, and not below its opposite. -/
def signedLimit : Nat := 0x8000000000000000

end ScriptHost
