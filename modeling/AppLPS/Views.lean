/-
Module: AppLPS.Views
Purpose: The state of the views and what they show.
Trusted boundary: none
Main exports: MainView, Screen, MainView.body, LoginView, RegistroView,
  FilaView, EditImagenView, MainView.drawn
-/
import AppLPS.Firebase.Auth

namespace AppLPS

/-- The state of `MainView`: the sign-in flag that it shares with `LoginView`,
the rows that its list shows, and the image of the open `EditImagenView`. -/
structure MainView where
  signInDone : Bool := false
  rendered : List UserImage := []
  editing : Option UserImage := none
deriving DecidableEq

/-- The alternatives of `MainView.body`. -/
inductive Screen where
  | login
  | loading
  | noPictures
  | pictures (rows : List UserImage)
deriving DecidableEq

/-- The inner alternative, shown once somebody is signed in. -/
def picturesBody (controller : FirebaseController) : Screen :=
  if controller.loading then .loading
  else if controller.empty && controller.refImagenesUsuario.length == 0 then
    .noPictures
  else .pictures controller.refImagenesUsuario

def MainView.body (main : MainView) (controller : FirebaseController) :
    Screen :=
  if main.signInDone then picturesBody controller else .login

/-- The rows of a screen. -/
def Screen.rows : Screen → List UserImage
  | .pictures rows => rows
  | _ => []

structure LoginView where
  email : String := ""
  password : String := ""
  errorFound : String := ""
  error : Bool := false
  loading : Bool := false
deriving DecidableEq

structure RegistroView where
  email : String := ""
  password : String := ""
  signUpDone : Bool := false
  errorFound : String := ""
  error : Bool := false
deriving DecidableEq

/-- The result that Auth hands to the completion of an attempt. -/
abbrev AuthResult := Except String FIRUser

/-- `LoginView.login` before the call of `signIn`. -/
def LoginView.login (view : LoginView) : LoginView :=
  { view with loading := true, error := false }

/-- The completion of `LoginView.login`. -/
def LoginView.loginDone (view : LoginView) (main : MainView) :
    AuthResult → LoginView × MainView
  | .error description =>
      ({ view with loading := false, error := true, errorFound := description },
        main)
  | .ok _ =>
      ({ view with loading := false, email := "", password := "" },
        { main with signInDone := true })

/-- `RegistroView.signUp` before the call of `createUser`. -/
def RegistroView.signUp (view : RegistroView) : RegistroView :=
  { view with signUpDone := false, errorFound := "", error := false }

/-- The completion of `RegistroView.signUp`.  It does not sign in. -/
def RegistroView.signUpFinished (view : RegistroView) : AuthResult → RegistroView
  | .error description => { view with error := true, errorFound := description }
  | .ok _ => { view with email := "", password := "", signUpDone := true }

/-- The email that `(session.session?.email)!` unwraps. -/
def forcedSessionEmail (controller : FirebaseController) :
    Except Trap String :=
  match controller.sessionEmail with
  | some email => .ok email
  | none => .error .forcedUnwrap

/-- `session.session?.email ?? "none"`. -/
def sessionEmailOrNone (controller : FirebaseController) : String :=
  controller.sessionEmail.getD "none"

/-- The account that a refresh task passes to `getUserData`. -/
def RefreshTask.account (controller : FirebaseController) :
    RefreshTask → Except Trap String
  | .onAppear => forcedSessionEmail controller
  | .onDelete => .ok (sessionEmailOrNone controller)
  | .afterUpload correoUsuario => .ok correoUsuario

/-! ## Drawing the pictures

`decode` is `UIImage(data:)`, which is `nil` for bytes that are no picture.
-/

section Drawing

variable {Picture : Type} (decode : Data → Option Picture)

/-- `UIImage(data: …)!`. -/
def forcedPicture (data : Data) : Except Trap Picture :=
  match decode data with
  | some picture => .ok picture
  | none => .error .forcedUnwrap

/-- What one row of the list shows. -/
structure FilaView (Picture : Type) where
  picture : Picture
  name : String
  date : String

def FilaView.body (userImage : UserImage) : Except Trap (FilaView Picture) := do
  let picture ← forcedPicture decode userImage.data
  return {
    picture := picture
    name := userImage.name
    date := userImage.date }

/-- What the edit screen shows when it appears. -/
structure EditImagenView (Picture : Type) where
  picture : Picture
  nombreImagen : String

def EditImagenView.body (image : UserImage) :
    Except Trap (EditImagenView Picture) := do
  let picture ← forcedPicture decode image.data
  return {
    picture := picture
    nombreImagen := image.name }

/-- The rows of the list and the edit screen that is pushed on it. -/
def MainView.drawn (main : MainView) :
    Except Trap (List (FilaView Picture) × Option (EditImagenView Picture)) := do
  let rows ← main.rendered.mapM (FilaView.body decode)
  match main.editing with
  | none => return (rows, none)
  | some image =>
      let edit ← EditImagenView.body decode image
      return (rows, some edit)

end Drawing

end AppLPS
