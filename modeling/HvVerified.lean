import HvVerified.Base.Hbuf
import HvVerified.Base.Hmain
import HvVerified.Base.Htime
import HvVerified.Base.Proofs.HeapProofs
import HvVerified.Cpputil.Proofs.WaitProofs
import HvVerified.Event.IoArray
import HvVerified.Event.Proofs.CloseProofs
import HvVerified.Event.Proofs.CuttingProofs
import HvVerified.Event.Proofs.ProgressProofs
import HvVerified.Event.Proofs.ReadFitsProofs
import HvVerified.Event.Proofs.WriteStreamProofs
import HvVerified.Event.Reconnect
import HvVerified.Evpp.Proofs.PostEventProofs
import HvVerified.Evpp.Proofs.TcpServerProofs
import HvVerified.Evpp.Proofs.TimerStepsProofs
import HvVerified.Http.Proofs.ChunkedStreamProofs
import HvVerified.Http.Proofs.ClientTlsProofs
import HvVerified.Http.Proofs.FileCacheFaultsProofs
import HvVerified.Http.Proofs.PairingProofs
import HvVerified.Http.Proofs.QueryProofs
import HvVerified.Http.Proofs.ReassemblyProofs
import HvVerified.Http.Proofs.RedirectProofs
import HvVerified.Http.Proofs.ResponseFileProofs
import HvVerified.Http.Proofs.RouteProofs
import HvVerified.Http.Proofs.SendDataProofs
import HvVerified.Http.Proofs.StaticFilesProofs
import HvVerified.Mqtt.Proofs.AckProofs
import HvVerified.Mqtt.Proofs.FiltersProofs
import HvVerified.Mqtt.Proofs.LoginProofs
import HvVerified.Mqtt.Proofs.PacketBoundsProofs
import HvVerified.Mqtt.Proofs.PolicyProofs
import HvVerified.Mqtt.Proofs.RetainedDeliveryProofs
import HvVerified.Mqtt.Proofs.TopicRulesProofs
import HvVerified.Mqtt.Proofs.WillProofs
