import Screech.Basic
import Screech.Params.Patterns
import Screech.Params
import Screech.Params.Grammar
import Screech.Primitives
import Screech.SymmetricState
import Screech.HandshakeState
import Screech.Calls
import Screech.Atomicity
import Screech.Progress
import Screech.Bounds
import Screech.Layout
import Screech.Robustness
import Screech.Retry
import Screech.Agreement
import Screech.RemoteStatic
import Screech.Liveness
import Screech.Transcript
import Screech.KeyState
import Screech.Psk
