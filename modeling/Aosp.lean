import Aosp.Art.Checkpoint
import Aosp.Art.ClassSnapshots
import Aosp.Art.DefaultInterfaces
import Aosp.Art.FieldLayout
import Aosp.Art.Imt
import Aosp.Art.NativeLibraryRuns
import Aosp.Art.VTable
import Aosp.Bionic.PropContexts
import Aosp.Bionic.PropForeach
import Aosp.Bionic.Seqlock
import Aosp.Bionic.SerialWait
import Aosp.Init.ActionSchedule
import Aosp.Init.ControlNames
import Aosp.Init.Environment
import Aosp.Init.ExecBarrier
import Aosp.Init.ExecGrammar
import Aosp.Init.Expansion
import Aosp.Init.LegalNames
import Aosp.Init.LineNumbers
import Aosp.Init.OptionErrors
import Aosp.Init.PersistentFile
import Aosp.Init.PropertyImport
import Aosp.Init.PropertyTriggers
import Aosp.Init.PropertyWait
import Aosp.Init.PropertyWire
import Aosp.Init.RcText
import Aosp.Init.ReceiveBudget
import Aosp.Init.Replies
import Aosp.Init.RestartTimeout
import Aosp.Kernel.BusyMeasure
import Aosp.Kernel.FileAccounts
import Aosp.Kernel.Fork
import Aosp.Kernel.KthreadProgress
import Aosp.Kernel.LastPid
import Aosp.Kernel.PidWalk
import Aosp.Mm.Interleave
import Aosp.Mm.MigratePages
import Aosp.Mm.PolicyString
import Aosp.Mm.SharedPolicyOwnership
import Aosp.Mm.SharedPolicyReplace
import Aosp.Mm.UserNodes
import Aosp.Selinux.AppIdentity
import Aosp.Selinux.ReloadAccesses
import Aosp.Selinux.SeappDuplicates
