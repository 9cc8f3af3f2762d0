import UsbBoot.Json.Domain
import UsbBoot.Main
import UsbBoot.Proofs.Image.RoundTrip
import UsbBoot.Proofs.Image.WrongDigit
import UsbBoot.Proofs.Job.Eeprom
import UsbBoot.Proofs.Pass.PowerFail
import UsbBoot.Proofs.Pass.RamImage
import UsbBoot.Proofs.Pass.Truncation
import UsbBoot.Proofs.Image.Reformatted
import UsbBoot.Proofs.Job.Loading
import UsbBoot.Proofs.Pass.Course
import UsbBoot.Proofs.Job.Delivered
import UsbBoot.Proofs.Pass.Cause
import UsbBoot.Proofs.Job.ExitCode
import UsbBoot.Proofs.Pass.Vetting
import UsbBoot.Proofs.Session.Afresh
import UsbBoot.Proofs.Load.Impossible
import UsbBoot.Proofs.Job.Identity
import UsbBoot.Proofs.Device.Table
import UsbBoot.Proofs.Settings.Layers
import UsbBoot.Proofs.Device.Chosen
import UsbBoot.Proofs.Cut
import UsbBoot.Proofs.Load.Fitting
import UsbBoot.Proofs.Record.Grammar
import UsbBoot.Proofs.Record.Reread
import UsbBoot.Proofs.Image.Deciding
import UsbBoot.Proofs.Image.Rewritten
import UsbBoot.Proofs.Job.Selected
import UsbBoot.Proofs.Pass.Progress
import UsbBoot.Proofs.Image.Paged
import UsbBoot.Proofs.Eeprom.ConfigByte
import UsbBoot.Proofs.Device.Typed
import UsbBoot.Proofs.Guarded.Cutting
