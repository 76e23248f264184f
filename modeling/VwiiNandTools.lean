import VwiiNandTools.Lib.AddressParity
import VwiiNandTools.Lib.ByteMemory
import VwiiNandTools.Lib.Transition
import VwiiNandTools.Armboot.Storage.Nand.SecDed
import VwiiNandTools.Armboot.Dump.Codeword
import VwiiNandTools.Armboot.Storage.Nand.WaitInv
import VwiiNandTools.Armboot.Storage.Sdmmc.Discover
import VwiiNandTools.Armboot.Storage.Diskio
import VwiiNandTools.Armboot.Storage.Sdhc.Intr
import VwiiNandTools.Armboot.Storage.Sdhc.Exec
import VwiiNandTools.Armboot.Storage.Sdhc.Own
import VwiiNandTools.Armboot.Storage.Sdhc.Lost
import VwiiNandTools.Armboot.Storage.Sdhc.WaitIntr
import VwiiNandTools.Armboot.Storage.Sdhc.Transfer
import VwiiNandTools.Armboot.Storage.Sdmmc.Csd
import VwiiNandTools.Armboot.Storage.Nand.Confined
import VwiiNandTools.Armboot.System.Cache
import VwiiNandTools.Lib.Cbc
import VwiiNandTools.Armboot.System.Crypto
import VwiiNandTools.Lib.WordMemory
import VwiiNandTools.Armboot.Elfloader.Loadelf
import VwiiNandTools.Armboot.Elfloader.Makebin
import VwiiNandTools.Armboot.System.Seeprom
import VwiiNandTools.Lib.Noncoherent
import VwiiNandTools.Lib.Path
import VwiiNandTools.Armboot.Video.Gecko
import VwiiNandTools.Nswitch.Main
import VwiiNandTools.Nswitch.Mailbox
import VwiiNandTools.Nswitch.Lossless
import VwiiNandTools.Nswitch.Interrupted
import VwiiNandTools.Lib.FreeTimer
import VwiiNandTools.Armboot.Common.Utils
import VwiiNandTools.Nswitch.Timeout
import VwiiNandTools.Lib.Interworking
import VwiiNandTools.Nswitch.LoadMini
import VwiiNandTools.Lib.LittleEndian
import VwiiNandTools.Lib.Chains
import VwiiNandTools.Armboot.Storage.Ff.Drive
import VwiiNandTools.Armboot.Storage.Ff.Window
import VwiiNandTools.Armboot.Storage.Ff.Fat
import VwiiNandTools.Armboot.Storage.Ff.Chain
import VwiiNandTools.Armboot.Storage.Ff.Owners
import VwiiNandTools.Armboot.Storage.Ff.File
import VwiiNandTools.Armboot.Storage.Ff.Pass
import VwiiNandTools.Armboot.Storage.Ff.Write
import VwiiNandTools.Armboot.Storage.Ff.Sync
import VwiiNandTools.Armboot.Storage.Ff.Files
import VwiiNandTools.Armboot.Storage.Ff.Dir
import VwiiNandTools.Armboot.Storage.Ff.Register
import VwiiNandTools.Armboot.Storage.Ff.Lookup
import VwiiNandTools.Armboot.Storage.Ff.Mount
import VwiiNandTools.Armboot.Storage.Ff.Open
