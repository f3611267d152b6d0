import DiceLedger.Bot.Client
import DiceLedger.Bot.Command
import DiceLedger.Formula.Powers
import DiceLedger.Formula.Sketch
import DiceLedger.Formula.Spacing
import DiceLedger.Formula.Written
import DiceLedger.Main
import DiceLedger.Proofs.Formula.Lexing
import DiceLedger.Proofs.Formula.Machine
import DiceLedger.Proofs.Formula.Powers
import DiceLedger.Proofs.Formula.Reading
import DiceLedger.Proofs.Roll.Dice
import DiceLedger.Proofs.Roll.Evaluation
import DiceLedger.Proofs.Disk.Growth
import DiceLedger.Proofs.Disk.Settled
import DiceLedger.Proofs.Session.Naming
import DiceLedger.Proofs.Session.Turns
import DiceLedger.Proofs.Session.Flush
import DiceLedger.Proofs.Session.Begin
import DiceLedger.Proofs.Session.Account
import DiceLedger.Proofs.Session.Conservation
import DiceLedger.Proofs.Session.Index
import DiceLedger.Proofs.Text.Integers
import DiceLedger.Proofs.Time.Reading
import DiceLedger.Proofs.Session.Loading
import DiceLedger.Proofs.Session.LoadFaults
import DiceLedger.Proofs.Roll.Attempts
import DiceLedger.Proofs.Roll.Totals
import DiceLedger.Proofs.Roll.Recorded
import DiceLedger.Proofs.Session.ReadBack
import DiceLedger.Proofs.Bot.Requests
import DiceLedger.Proofs.Bot.ReadBack
import DiceLedger.Proofs.Roll.Seen
import DiceLedger.Proofs.Bot.Limits
import DiceLedger.Proofs.Bot.Refusals
import DiceLedger.Proofs.Formula.Overlong
import DiceLedger.Proofs.Bot.Answered
import DiceLedger.Proofs.Session.Headers
import DiceLedger.Proofs.Session.Queue
import DiceLedger.Proofs.Bot.Leaving
import DiceLedger.Proofs.Formula.FirstFault
import DiceLedger.Proofs.Formula.Tokenizing
import DiceLedger.Proofs.Roll.Spacing
import DiceLedger.Proofs.Formula.Writing
import DiceLedger.Proofs.Formula.Echo
import DiceLedger.Proofs.Roll.Display
import DiceLedger.Proofs.Session.Failures
import DiceLedger.Proofs.Text.Fence
import DiceLedger.Proofs.Text.Closing
import DiceLedger.Proofs.Text.Markdown
import DiceLedger.Proofs.Bot.Replies
import DiceLedger.Proofs.Session.Growth
import DiceLedger.Proofs.Session.Listing
import DiceLedger.Proofs.Session.Rereading
import DiceLedger.Proofs.Roll.Division
import DiceLedger.Proofs.Bot.Delivery
import DiceLedger.Proofs.Bot.Points
import DiceLedger.Proofs.Bot.Unrecorded
