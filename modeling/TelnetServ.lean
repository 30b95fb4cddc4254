import TelnetServ.Line.Refinement
import TelnetServ.Line.Return
import TelnetServ.Command.RoundTrip
import TelnetServ.Command.Tokenizer
import TelnetServ.Command.Separators
import TelnetServ.Command.Forms
import TelnetServ.Daemon.Batches
import TelnetServ.Daemon.Isolation
import TelnetServ.Daemon.Dispatch
import TelnetServ.Daemon.Terminators
import TelnetServ.Daemon.Quoting
import TelnetServ.Send.Delivery
import TelnetServ.Send.Connections
import TelnetServ.Send.Termination
import TelnetServ.Queue.Shutdown
import TelnetServ.Server.Startup
import TelnetServ.Server.Restart
import TelnetServ.Print.Timed
import TelnetServ.Print.Untimed
import TelnetServ.LogFile.Expiry
import TelnetServ.LogFile.Directory
import TelnetServ.LogFile.Retention
import TelnetServ.Output.Stamp
import TelnetServ.Time.ZoneFile
import TelnetServ.Logging.Line
import TelnetServ.Threads.Rest
import TelnetServ.Threads.Atomic
