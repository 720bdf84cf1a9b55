/-!
The version that the library reports of itself.
-/

namespace ClassRoster

def version : String := "0.4.2"

end ClassRoster
