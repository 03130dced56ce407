/-!
# Name and version of the program
-/

namespace LinkedApi

def programName : String := "ldgen"

def version : String := "0.1.0"

end LinkedApi
