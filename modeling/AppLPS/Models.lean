/-
Module: AppLPS.Models
Purpose: The two model structures of the app.
Trusted boundary: none
Main exports: User, UserImage
-/
import AppLPS.Foundation

namespace AppLPS

/-- The signed-in account as the app keeps it. -/
structure User where
  uid : String
  email : Option String
deriving DecidableEq, Repr

/-- One row of the picture list. -/
structure UserImage where
  name : String
  date : String
  email : String
  data : Data
deriving DecidableEq

end AppLPS
