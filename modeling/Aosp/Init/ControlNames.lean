import Aosp.Init.PropertySocket
import Aosp.Init.Service

/-! # Controlling a service by its name

A service name becomes the value of `ctl.start`, and a value has to be shorter than
`PROP_VALUE_MAX`, while `IsValidName` also accepts a name of that length.
-/

namespace Aosp.Init

open Aosp.Lib Aosp.Bionic List

end Aosp.Init
