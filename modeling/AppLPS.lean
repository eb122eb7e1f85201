import AppLPS.Machine.Basic
import AppLPS.Machine.Pool
import AppLPS.Machine.Network
import AppLPS.Machine.Progress
import AppLPS.Machine.Simulation
import AppLPS.Machine.Broadcast
import AppLPS.Models
import AppLPS.Firebase.Backend
import AppLPS.Firebase.FirebaseController
import AppLPS.Firebase.FIRAuth
import AppLPS.Views
import AppLPS.Device
import AppLPS.World
import AppLPS.Album
import AppLPS.Proofs.DeviceSteps
import AppLPS.Proofs.LogOut
import AppLPS.Proofs.SessionKnown
import AppLPS.Proofs.LatestRefresh
import AppLPS.Proofs.NoPictures
import AppLPS.Proofs.Spinner
import AppLPS.Proofs.DeleteGesture
import AppLPS.Proofs.Duplicates
import AppLPS.Proofs.AccountIsolation
import AppLPS.Proofs.WorldSteps
import AppLPS.Proofs.Records
import AppLPS.Proofs.StoresAgree
import AppLPS.Proofs.RefreshAlone
import AppLPS.Proofs.UploadIsolation
import AppLPS.Proofs.FailedDelete
import AppLPS.Proofs.Traps
import AppLPS.Proofs.Settling
import AppLPS.Proofs.DataFlow
import AppLPS.Proofs.Provenance
import AppLPS.Proofs.Authority
import AppLPS.Proofs.FreshKeys
import AppLPS.Proofs.AlbumRefinement
import AppLPS.Proofs.SessionAtRest
import AppLPS.Proofs.AuthListeners
import AppLPS.Proofs.MergedView
import AppLPS.Proofs.StringCode
import AppLPS.Proofs.NumberCode
import AppLPS.Firestore.LevelDbKey
import AppLPS.Proofs.KeyCode
