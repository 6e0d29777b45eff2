import Ini.Config.Edit
import Ini.Config.Query
import Ini.Cursor
import Ini.Dialect.Settings
import Ini.Proofs.Step
import Ini.Proofs.Aborted
import Ini.Proofs.Items
import Ini.Proofs.Continued
import Ini.Proofs.Written
import Ini.Proofs.Rebuilt
import Ini.Proofs.Marked
import Ini.Proofs.RoundTrip
import Ini.Proofs.Taken
import Ini.Proofs.ReadBack
import Ini.Proofs.Inline
import Ini.Proofs.KeyLine
import Ini.Proofs.Resolution
import Ini.Proofs.Orderly
import Ini.Proofs.Coherent
import Ini.Proofs.Growth
import Ini.Proofs.Depth
import Ini.Proofs.Reach
import Ini.Proofs.Strict
import Ini.Proofs.Joined
import Ini.Proofs.Rejected
import Ini.Proofs.Confined
import Ini.Proofs.Blocks
import Ini.Proofs.Answers
import Ini.Proofs.View
import Ini.Proofs.Reported
import Ini.Proofs.Blame
import Ini.Proofs.Limit
import Ini.Proofs.Stored
import Ini.Proofs.Escape
import Ini.Proofs.Comments
import Ini.Proofs.Integers
import Ini.Proofs.Undone
import Ini.Proofs.Lists
import Ini.Proofs.Terminators
import Ini.Proofs.Delimiters
