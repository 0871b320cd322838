import MyServer.Bytes
import MyServer.Framing
import MyServer.Runs
import MyServer.Paths
import MyServer.Maps
import MyServer.Scanner
import MyServer.Periods
import MyServer.Tickets
import MyServer.Message
import MyServer.Connection
import MyServer.WritePath
import MyServer.ReadPath
import MyServer.ReadLaws
import MyServer.Json
import MyServer.Tighten
import MyServer.FuncHandler
import MyServer.JsonWriter
import MyServer.JsonReader
import MyServer.TightText
import MyServer.JsonText
import MyServer.JsonLayout
import MyServer.JsonNormal
import MyServer.JsonKept
import MyServer.Lexer
import MyServer.Decoder
import MyServer.Reader
import MyServer.ReaderGrammar
import MyServer.ReaderStandard
import MyServer.ReaderLayout
import MyServer.Servers
import MyServer.Responses
import MyServer.Gate
import MyServer.GateTables
import MyServer.HeartBeat
import MyServer.GateBooks
import MyServer.GateBeats
import MyServer.GateSessions
import MyServer.GateRouting
import MyServer.GateForward
import MyServer.RequestParser
import MyServer.RequestGrammar
import MyServer.HeaderBack
import MyServer.PostBody
import MyServer.VersionNumbers
import MyServer.HttpForward
import MyServer.FormData
import MyServer.HttpConnection
import MyServer.UrlCode
import MyServer.Resources
import MyServer.TextFiles
import MyServer.ConfigFiles
import MyServer.ConnectionManager
import MyServer.ConnectionEntries
import MyServer.HttpText
import MyServer.WebServer
import MyServer.NetIds
import MyServer.Admission
import MyServer.AccountMgr
import MyServer.Accounts
import MyServer.AccountIntegrity
import MyServer.AccountLogin
import MyServer.PlayerMgr
import MyServer.TightenLaws
import MyServer.Roles
import MyServer.Answers
import MyServer.PlayerStore
import MyServer.BookStore
import MyServer.BookEffects
import MyServer.BookPersistence
import MyServer.HandlerFaults
import MyServer.GateFrames
import MyServer.System
import MyServer.SystemRuns
import MyServer.GameRequests
import MyServer.Robot
import MyServer.TcpClient
import MyServer.Arena
import MyServer.RobotSessions
import MyServer.TimeHelper
import MyServer.RandomList
