import UnixNote.Lib.Runs
import UnixNote.Lib.Keyed
import UnixNote.Lib.Quoted
import UnixNote.Chat.Sql
import UnixNote.Chat.Mmsql
import UnixNote.Chat.Action
import UnixNote.Proof.Cascade
import UnixNote.Proof.OfflineCascade
import UnixNote.Proof.Teardown
import UnixNote.Proof.SessionTable
import UnixNote.Proof.Messages
import UnixNote.Chat.Socket
import UnixNote.Proof.Framing
import UnixNote.Chat.Payload
import UnixNote.Proof.Bounds
import UnixNote.Proof.Friendship
import UnixNote.Chat.Loop
import UnixNote.Proof.Slots
import UnixNote.Proof.Receivers
import UnixNote.Proof.Drain
import UnixNote.Chat.System
import UnixNote.Proof.Replies
import UnixNote.Proof.Links
import UnixNote.Proof.Consent
import UnixNote.Lib.Views
import UnixNote.Proof.Presence
import UnixNote.Proof.Visible
import UnixNote.Proof.Agreement
import UnixNote.Proof.Handles
import UnixNote.Chat.Credentials
import UnixNote.Proof.Credentials
import UnixNote.Chat.Register
import UnixNote.Proof.Registration
import UnixNote.Chat.Login
import UnixNote.Proof.Logins
import UnixNote.Chat.Sender
import UnixNote.Proof.Senders
import UnixNote.Chat.Udp
import UnixNote.Proof.Datagrams
import UnixNote.Proof.Connections
import UnixNote.Chat.Approval
import UnixNote.Proof.Approvals
import UnixNote.Proof.Descriptors
import UnixNote.Proof.Closings
import UnixNote.Lib.Heap
import UnixNote.Proof.Linklists
import UnixNote.TcpUdp.Server
import UnixNote.Proof.Identifiers
import UnixNote.Proof.Snapshots
import UnixNote.Chat.Message
import UnixNote.Proof.Turns
import UnixNote.Proof.Leaving
import UnixNote.Proof.Recipients
import UnixNote.Proof.RoundTrip
import UnixNote.Chat.File
import UnixNote.Proof.Frames
import UnixNote.Proof.Insert
import UnixNote.Ipc.Service
import UnixNote.Proof.Service
import UnixNote.Proof.Announcing
import UnixNote.Proof.Ghosts
import UnixNote.Lib.Arrays
import UnixNote.Chat.Conf
import UnixNote.Proof.Scan
import UnixNote.Proof.Grammar
import UnixNote.Proof.Blocks
import UnixNote.Proof.Faithful
import UnixNote.Chat.Pwdmgmt
import UnixNote.Lib.Terminal
import UnixNote.Proof.Editors
import UnixNote.Chat.Display
import UnixNote.Proof.Layout
import UnixNote.Clitocli.Server
import UnixNote.Proof.Relay
import UnixNote.Lib.Simulation
import UnixNote.Lib.Bytes
import UnixNote.Chat.Process
import UnixNote.Chat.Wire
import UnixNote.Proof.Encoding
import UnixNote.Proof.Clients
import UnixNote.Proof.Values
import UnixNote.Proof.Streams
import UnixNote.Proof.Terminals
import UnixNote.Proof.Farewells
import UnixNote.Proof.Delivery
import UnixNote.Lib.Queues
import UnixNote.Proof.Settling
import UnixNote.Proof.Accounts
import UnixNote.Lib.Mutexes
import UnixNote.Lib.Splices
import UnixNote.Chat.Concurrent
import UnixNote.Proof.Sections
import UnixNote.Proof.Linear
import UnixNote.Proof.Races
import UnixNote.Proof.Showing
