import Timps.Base.Pairing
import Timps.Base.Framing
import Timps.Gnr.Table
import Timps.Gnr.Dispatch
import Timps.Naf.SbufContract
import Timps.Naf.Torn
import Timps.Naf.Codec
import Timps.Naf.Cacheuse
import Timps.Oscar.Pairing
import Timps.Oscar.Online
import Timps.Oscar.Provenance
import Timps.Oscar.Outgoing
import Timps.Oscar.Incoming
import Timps.Oscar.Dissect
import Timps.Oscar.Cookies
import Timps.Oscar.Login
import Timps.Oscar.Closing
import Timps.Oscar.Sncmp
import Timps.Oscar.Preserved
import Timps.Oscar.Acceptance
import Timps.Oscar.Transparency
import Timps.Oscar.Survival
import Timps.Naf.Moduleruns
import Timps.Oscar.Unicode
import Timps.Oscar.Sections
import Timps.Naf.Nafconfig
import Timps.Naf.Listeners
import Timps.Ipv4.Icmpv4
import Timps.Naf.Flmpuse
import Timps.Naf.Taglist
import Timps.Naf.Accounting
import Timps.Oscar.Buffers
import Timps.Nafconsole.Given
import Timps.Httpd.Page
import Timps.Httpd.Request
import Timps.Base.Keyed
import Timps.Naf.Methods
import Timps.Nafconsole.Command
